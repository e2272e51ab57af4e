import Xv6Kthreads.Ide

/-!
# The disk driver refines the memory disk

The queue of the driver is the list of the calls that have not been completed,
the command at the disk is that of the first of them, and the completions are
what the memory disk would have done with the same calls in the same order.
-/

namespace Xv6Kthreads

namespace Ide

open LabelledRun LinkedQueue Function Option List Completion State

section MemoryDisk

variable {Data : Type*} {disksize : Nat} {memdisk : Nat → Data}
variable {buffer : Buffer Data}

structure Buffer.Servable (disksize : Nat) (buffer : Buffer Data) : Prop where
  busy : buffer.busy = true
  notDone : buffer.done = false
  dev : buffer.dev = 1
  sector : buffer.sector < disksize

def Buffer.stored (memdisk : Nat → Data) (buffer : Buffer Data) : Nat → Data :=
  if buffer.dirty then update memdisk buffer.sector buffer.data
  else memdisk

/-- The memory disk serves a request as the interrupt handler does with the
data of the sector. -/
theorem memIderw_eq (servable : buffer.Servable disksize) : memIderw disksize memdisk buffer =
      .ok (buffer.stored memdisk, served (some (memdisk buffer.sector)) buffer) := by
  unfold memIderw Buffer.stored served
  rw [if_neg (by simp [servable.busy]), if_neg (by simp [servable.notDone]),
    if_neg (by simp [servable.dev]),
    if_neg (by have := servable.sector; omega)]
  obtain ⟨busy, valid, dirty, dev, sector, data⟩ := buffer
  cases dirty with
  | true => rfl
  | false => rfl

theorem memRun_append (disksize : Nat) (memdisk : Nat → Data) (buffers : List (Buffer Data))
    (buffer : Buffer Data) {middle : Nat → Data} {afters : List (Buffer Data)}
    (run : memRun disksize memdisk buffers = .ok (middle, afters)) {final : Nat → Data}
    {after : Buffer Data} (serves : memIderw disksize middle buffer = .ok (final, after)) :
    memRun disksize memdisk (buffers ++ [buffer]) = .ok (final, afters ++ [after]) := by
  induction buffers generalizing memdisk afters with
  | nil =>
    cases run
    simp only [nil_append, memRun, serves]
  | cons first buffers ih =>
    simp only [memRun] at run
    split at run
    next => cases run
    next next firstAfter served =>
      split at run <;> cases run
      next last others rest =>
        have appended := ih next rest
        simp only [cons_append, memRun, served, appended]

end MemoryDisk

section Refinement

variable {Buf Thread Data : Type*}
variable {disksize : Nat} {first memdisk : Nat → Data}
variable {state next : State Buf Thread Data}
variable {queue : List (Buf × Buffer Data)}

def Completion.request (completion : Completion Buf Data) : Buf × Buffer Data :=
  (completion.buf, completion.before)

/-- The disk when the calls in `queue` are to be completed and `memdisk` is
the memory disk after the completed ones. -/
def DriveOk (drive : Drive Data) (contents memdisk : Nat → Data) : List (Buf × Buffer Data) → Prop
  | [] => drive = .ready ∧ contents = memdisk
  | (_, buffer) :: _ =>
    drive = .working buffer.command ∧ contents = memdisk ∨
      ∃ data, drive = .raised data ∧ contents = buffer.stored memdisk ∧ served data buffer =
          served (some (memdisk buffer.sector)) buffer

/-- The calls in `queue` are to be completed; `first` and `memdisk` are the
memory disk before and after the completed ones. -/
structure Serves (disksize : Nat) (first : Nat → Data)
    (state : State Buf Thread Data) (queue : List (Buf × Buffer Data))
    (memdisk : Nat → Data) : Prop where
  chain : Chain state.qnext state.idequeue (queue.map Prod.fst)
  distinct : (queue.map Prod.fst).Nodup
  requested : state.requested = state.completed.map request ++ queue
  started : state.started = state.completed.map buf ++ (queue.map Prod.fst).head?.toList
  kept : ∀ entry ∈ queue, state.buffer entry.1 = entry.2 ∧ entry.2.Servable disksize
  drive : DriveOk state.drive (state.contents 1) memdisk queue
  memory : memRun disksize first (state.completed.map before) =
    .ok (memdisk, state.completed.map after)
  served : ∀ completion ∈ state.completed,
    completion.after.valid = true ∧ completion.after.dirty = false
  havedisk1 : state.havedisk1 = true

structure Waits (state : State Buf Thread Data) : Prop where
  ticket : ∀ thread buf asleep ticket, state.place thread = .waiting buf asleep ticket →
      ∃ before, state.requested[ticket]? = some (buf, before)
  finished : ∀ thread buf asleep ticket, state.place thread = .waiting buf asleep ticket →
      ticket < state.completed.length → asleep = false ∧
        (state.completed[ticket]?).map Completion.after = some (state.buffer buf)
  owner : ∀ ticket buf before, state.completed.length ≤ ticket →
    state.requested[ticket]? = some (buf, before) →
      ∃ thread asleep, state.place thread = .waiting buf asleep ticket
  single : ∀ first second buf, (state.place first).buf = some buf →
    (state.place second).buf = some buf → first = second
  returned : ∀ result ∈ state.returned,
    (state.completed[result.1]?).map Completion.after = some result.2

/-- The tickets of the calls that are to be completed follow those of the
completed ones. -/
theorem Serves.requested_at (serves : Serves disksize first state queue memdisk) (index : Nat) :
    state.requested[state.completed.length + index]? = queue[index]? := by
  rw [serves.requested, getElem?_append_right (by simp)]
  simp

variable {buf : Buf}

/-- A buffer on which no call is in progress is not in the queue. -/
theorem Waits.notMem (waits : Waits state) (serves : Serves disksize first state queue memdisk)
    (notInUse : state.NotInUse buf) : buf ∉ queue.map Prod.fst := by
  intro member
  obtain ⟨entry, isEntry, rfl⟩ := mem_map.mp member
  obtain ⟨index, isIndex⟩ := getElem?_of_mem isEntry
  have isRequest := serves.requested_at index
  rw [isIndex] at isRequest
  obtain ⟨thread, asleep, place⟩ := waits.owner _ entry.1 entry.2 (Nat.le_add_right _ _) isRequest
  apply notInUse thread
  rw [place]
  rfl

theorem Serves.replace (serves : Serves disksize first state queue memdisk)
    (place : Thread → Place Buf) (panic : Option Panic) (returned : List (Nat × Buffer Data)) :
    Serves disksize first { state with place, panic, returned } queue memdisk :=
  { serves with }

/-! ## The owner of a buffer -/

variable [DecidableEq Buf]

theorem Serves.change (serves : Serves disksize first state queue memdisk)
    (outside : buf ∉ queue.map Prod.fst) (buffer : Buffer Data) :
    Serves disksize first { state with
      buffer := update state.buffer buf buffer } queue memdisk := by
  refine { serves with kept := ?_ }
  intro entry member
  have differs : entry.1 ≠ buf := by
    rintro rfl
    exact outside (mem_map_of_mem member)
  dsimp only
  rw [update_of_ne differs]
  exact serves.kept entry member

theorem Waits.change (waits : Waits state) (notInUse : state.NotInUse buf) (buffer : Buffer Data) :
    Waits { state with
      buffer := update state.buffer buf buffer } := by
  refine { waits with finished := ?_ }
  intro thread own asleep ticket place before
  have differs : own ≠ buf := by
    rintro rfl
    apply notInUse thread
    rw [place]
    rfl
  dsimp only
  rw [update_of_ne differs]
  exact waits.finished thread own asleep ticket place before

/-! ## The disk -/

omit [DecidableEq Buf] in
/-- A command that the disk works on is that of the first call, and the disk
completes it as the memory disk does. -/
theorem Serves.complete (serves : Serves disksize first state queue memdisk)
    (small : disksize ≤ 2 ^ 28) {command : Command Data} (works : state.drive = .working command) :
    ∃ next data contents, state.complete = some next ∧
      next = { state with drive := .raised data, contents } ∧
      Serves disksize first next queue memdisk := by
  have drive := serves.drive
  cases queue with
  | nil =>
    rw [drive.1] at works
    cases works
  | cons entry rest =>
    obtain ⟨buf, buffer⟩ := entry
    obtain ⟨-, servable⟩ := serves.kept (buf, buffer) mem_cons_self
    dsimp only at servable
    rcases drive with ⟨isWorking, same⟩ | ⟨data, isRaised, -⟩
    · have dev : buffer.command.dev = 1 := by
        simp [Buffer.command, servable.dev]
      have sector : buffer.command.sector = buffer.sector := by
        have bound := servable.sector
        exact Nat.mod_eq_of_lt (by omega)
      unfold complete
      rw [isWorking]
      dsimp only
      cases dirty : buffer.dirty with
      | true =>
        have isWrite : buffer.command.write = some buffer.data := by
          simp [Buffer.command, dirty]
        rw [isWrite]
        refine ⟨_, none, _, rfl, rfl, { serves with drive := ?_ }⟩
        refine Or.inr ⟨none, rfl, ?_, ?_⟩
        · dsimp only
          rw [dev, sector, update_self, same]
          simp [Buffer.stored, dirty]
        · simp [State.served, dirty]
      | false =>
        have isRead : buffer.command.write = none := by
          simp [Buffer.command, dirty]
        rw [isRead]
        refine ⟨_, _, state.contents, rfl, rfl, { serves with drive := ?_ }⟩
        refine Or.inr ⟨_, rfl, ?_, ?_⟩
        · simp [Buffer.stored, dirty, same]
        · rw [dev, sector, same]
    · rw [isRaised] at works
      cases works

/-! ## The interrupt -/

/-- What the interrupt for the first call does to the threads. -/
def State.taken (state : State Buf Thread Data) (buf : Buf) (buffer after : Buffer Data) :
    State Buf Thread Data :=
  { state with
    buffer := update state.buffer buf after
    place := wakeup state.place buf
    completed := state.completed ++ [⟨buf, buffer, after⟩] }

theorem Serves.ideintr (serves : Serves disksize first state queue memdisk) {data : Option Data}
    (raised : state.drive = .raised data) :
    ∃ buf buffer rest next, queue = (buf, buffer) :: rest ∧ state.ideintr data = some next ∧
      next.requested = state.requested ∧ next.panic = state.panic ∧
      (Waits (state.taken buf buffer (State.served data buffer)) → Waits next) ∧
      Serves disksize first next rest (buffer.stored memdisk) := by
  have drive := serves.drive
  cases queue with
  | nil =>
    rw [drive.1] at raised
    cases raised
  | cons entry rest =>
    obtain ⟨buf, buffer⟩ := entry
    obtain ⟨isBuffer, servable⟩ := serves.kept (buf, buffer) mem_cons_self
    dsimp only at isBuffer servable
    rcases drive with ⟨isWorking, -⟩ | ⟨read, isRaised, same, result⟩
    · rw [isWorking] at raised
      cases raised
    · rw [isRaised] at raised
      cases raised
      have head : state.idequeue = some buf := serves.chain.1
      have tail : Chain state.qnext (state.qnext buf) (rest.map Prod.fst) := serves.chain.2
      have distinct := nodup_cons.mp serves.distinct
      have kept : ∀ entry ∈ rest, update state.buffer buf
            (State.served data buffer) entry.1 = entry.2 ∧
              entry.2.Servable disksize := by
        intro entry member
        have differs : entry.1 ≠ buf := by
          intro same
          apply distinct.1
          dsimp only
          rw [← same]
          exact mem_map_of_mem member
        rw [update_of_ne differs]
        exact serves.kept entry (mem_cons_of_mem _ member)
      have memory : memRun disksize first ((state.completed ++ [Completion.mk buf buffer
            (State.served data buffer)]).map before) =
          .ok (buffer.stored memdisk, (state.completed ++ [Completion.mk buf buffer
            (State.served data buffer)]).map after) := by
        rw [map_append, map_append]
        apply memRun_append disksize first _ buffer serves.memory
        rw [memIderw_eq servable, result]
      have served : ∀ completion ∈ state.completed ++ [Completion.mk buf buffer
            (State.served data buffer)],
          completion.after.valid = true ∧ completion.after.dirty = false := by
        intro completion member
        rcases mem_append.mp member with earlier | now
        · exact serves.served completion earlier
        · rw [mem_singleton.mp now]
          exact ⟨rfl, rfl⟩
      have requested : state.requested = (state.completed ++ [Completion.mk buf buffer
            (State.served data buffer)]).map request ++
              rest := by
        rw [serves.requested, map_append, append_assoc]
        rfl
      have started : state.started = (state.completed ++ [Completion.mk buf buffer
            (State.served data buffer)]).map Completion.buf := by
        rw [serves.started, map_append]
        rfl
      unfold ideintr
      rw [head]
      dsimp only
      rw [isBuffer]
      cases rest with
      | nil =>
        have empty : state.qnext buf = none := tail
        rw [empty]
        refine ⟨buf, buffer, [], _, rfl, rfl, rfl, rfl, fun waits => { waits with }, ?_, nodup_nil,
          requested, ?_, kept, ⟨rfl, same⟩, memory, served, serves.havedisk1⟩
        · exact rfl
        · dsimp only
          rw [started]
          simp
      | cons following others =>
        have isNext : state.qnext buf = some following.1 := tail.1
        rw [isNext]
        have isKept := kept following mem_cons_self
        refine ⟨buf, buffer, following :: others, _, rfl, rfl, rfl, rfl,
          fun waits => { waits with }, ?_, distinct.2, requested, ?_, kept, ?_, memory, served,
          serves.havedisk1⟩
        · exact ⟨rfl, tail.2⟩
        · dsimp only
          rw [started]
          simp
        · left
          refine ⟨?_, same⟩
          dsimp only
          rw [isKept.1]

theorem wakeup_buf (place : Thread → Place Buf) (buf : Buf) (thread : Thread) :
    (wakeup place buf thread).buf = (place thread).buf := by
  unfold wakeup
  cases place thread with
  | away => rfl
  | waiting own asleep ticket =>
    dsimp only
    split
    next => rfl
    next => rfl

variable {thread : Thread} {ticket : Nat} {asleep : Bool}

theorem wakeup_waiting {place : Thread → Place Buf} {own : Buf}
    (woken : wakeup place buf thread = .waiting own asleep ticket) :
    ∃ before, place thread = .waiting own before ticket ∧
      (own = buf → asleep = false) ∧ (own ≠ buf → asleep = before) := by
  unfold wakeup at woken
  split at woken
  next => cases woken
  next isOwn before isTicket isPlace =>
    split at woken <;> cases woken
    next same => exact ⟨before, isPlace, fun _ => rfl, fun differs => absurd same differs⟩
    next differs => exact ⟨_, isPlace, fun same => absurd same differs, fun _ => rfl⟩

theorem wakeup_of_waiting {place : Thread → Place Buf} {own : Buf}
    (isPlace : place thread = .waiting own asleep ticket) (buf : Buf) :
    ∃ after, wakeup place buf thread = .waiting own after ticket := by
  unfold wakeup
  rw [isPlace]
  dsimp only
  split
  next => exact ⟨false, rfl⟩
  next => exact ⟨asleep, rfl⟩

variable [DecidableEq Thread]

omit [DecidableEq Buf] in
theorem completed_append {completed : List (Completion Buf Data)}
    {value : Buffer Data} (completion : Completion Buf Data)
    (earlier : (completed[ticket]?).map Completion.after = some value) :
    ((completed ++ [completion])[ticket]?).map Completion.after =
      some value := by
  obtain ⟨entry, isEntry, isAfter⟩ := map_eq_some_iff.mp earlier
  obtain ⟨before, -⟩ := List.getElem?_eq_some_iff.mp isEntry
  rw [getElem?_append_left before, isEntry, ← isAfter]
  rfl

omit [DecidableEq Thread] in
theorem Waits.served (waits : Waits state) {buffer after : Buffer Data}
    {rest : List (Buf × Buffer Data)}
    (serves : Serves disksize first state ((buf, buffer) :: rest) memdisk) :
    Waits (state.taken buf buffer after) := by
  have isFirst : state.requested[state.completed.length]? = some (buf, buffer) := by
    simpa using serves.requested_at 0
  obtain ⟨owner, ownerAsleep, ownerPlace⟩ := waits.owner _ buf buffer (Nat.le_refl _) isFirst
  refine ⟨?_, ?_, ?_, ?_, ?_⟩
  · intro thread own asleep ticket woken
    obtain ⟨before, isPlace, -⟩ := wakeup_waiting woken
    exact waits.ticket thread own before ticket isPlace
  · intro thread own asleep ticket woken early
    obtain ⟨before, isPlace, ifSame, ifOther⟩ := wakeup_waiting woken
    dsimp only [State.taken] at early ⊢
    rw [length_append, length_singleton] at early
    by_cases isLast : ticket = state.completed.length
    · -- The call that is completed now.
      subst isLast
      obtain ⟨snapshot, isRequest⟩ := waits.ticket thread own before _ isPlace
      rw [isFirst] at isRequest
      obtain rfl : buf = own := congrArg Prod.fst (some.inj isRequest)
      refine ⟨ifSame rfl, ?_⟩
      rw [update_self, getElem?_concat_length]
      rfl
    · obtain ⟨isAwake, isResult⟩ := waits.finished thread own before ticket isPlace (by omega)
      have differs : own ≠ buf := by
        rintro rfl
        have same : thread = owner := waits.single thread owner own
          (by rw [isPlace]; rfl) (by rw [ownerPlace]; rfl)
        rw [same, ownerPlace] at isPlace
        cases isPlace
        exact isLast rfl
      rw [ifOther differs, update_of_ne differs]
      exact ⟨isAwake, completed_append _ isResult⟩
  · intro ticket own snapshot late isRequest
    dsimp only [State.taken] at late
    rw [length_append, length_singleton] at late
    obtain ⟨thread, asleep, isPlace⟩ := waits.owner ticket own snapshot (by omega) isRequest
    obtain ⟨woken, isWoken⟩ := wakeup_of_waiting isPlace buf
    exact ⟨thread, woken, isWoken⟩
  · intro one other own isOne isOther
    exact waits.single one other own ((wakeup_buf ..).symm.trans isOne)
      ((wakeup_buf ..).symm.trans isOther)
  · intro result member
    exact completed_append _ (waits.returned result member)

/-! ## The call -/

omit [DecidableEq Thread] in
/-- The walk of `iderw` finds the end of the queue and appends the buffer. -/
theorem Serves.append [Fintype Buf] (serves : Serves disksize first state queue memdisk)
    (outside : buf ∉ queue.map Prod.fst) :
    ∃ qnext idequeue, state.append buf = some { state with qnext, idequeue } ∧
      Chain qnext idequeue (queue.map Prod.fst ++ [buf]) := by
  have chain := serves.chain.update outside none
  have distinct := serves.distinct
  unfold State.append
  generalize queue.map Prod.fst = items at chain distinct outside
  have isHead := chain.head_eq
  cases items with
  | nil =>
    have empty : state.idequeue = none := isHead
    rw [empty]
    refine ⟨_, _, rfl, rfl, ?_⟩
    exact update_self _ _ _
  | cons item items =>
    have notEmpty : state.idequeue = some item := isHead
    rw [notEmpty] at chain ⊢
    have bound := length_lt_of_notMem distinct outside
    rw [length_cons] at bound
    have walk := chain.last_eq (Fintype.card Buf) (by omega)
    dsimp only
    rw [walk]
    refine ⟨_, some item, rfl, ?_⟩
    exact chain.append (update_self _ _ _) distinct outside

/-- What a call does to the threads. -/
def State.called (state : State Buf Thread Data) (thread : Thread) (buf : Buf) :
    State Buf Thread Data :=
  { state with
    place := update state.place thread (.waiting buf true state.requested.length)
    requested := state.requested ++ [(buf, state.buffer buf)] }

theorem Serves.iderw [Fintype Buf] (serves : Serves disksize first state queue memdisk)
    (thread : Thread) (outside : buf ∉ queue.map Prod.fst)
    (servable : (state.buffer buf).Servable disksize) :
    ∃ next, state.iderw thread buf = some next ∧ (Waits (state.called thread buf) → Waits next) ∧
      Serves disksize first next (queue ++ [(buf, state.buffer buf)]) memdisk := by
  obtain ⟨qnext, idequeue, appended, chain⟩ := serves.append outside
  have notDone := servable.notDone
  have names : (queue ++ [(buf, state.buffer buf)]).map Prod.fst = queue.map Prod.fst ++ [buf] := by
    simp
  have distinct : (queue.map Prod.fst ++ [buf]).Nodup :=
    serves.distinct.append (nodup_singleton buf) (disjoint_singleton.mpr outside)
  have requested : state.requested ++ [(buf, state.buffer buf)] =
      state.completed.map request ++ (queue ++ [(buf, state.buffer buf)]) := by
    rw [serves.requested, append_assoc]
  have kept : ∀ entry ∈ queue ++ [(buf, state.buffer buf)],
      state.buffer entry.1 = entry.2 ∧ entry.2.Servable disksize := by
    intro entry member
    rcases mem_append.mp member with earlier | now
    · exact serves.kept entry earlier
    · rw [mem_singleton.mp now]
      exact ⟨rfl, servable⟩
  have head := chain.head_eq
  unfold State.iderw
  rw [if_neg (by simp [servable.busy]), if_neg (by simp [notDone]),
    if_neg (by simp [serves.havedisk1]), appended]
  simp only [bind_eq_bind, bind_some]
  cases queue with
  | nil =>
    -- The queue was empty, and the disk is started.
    have isHead : idequeue = some buf := head
    obtain ⟨isReady, same⟩ := serves.drive
    have started : state.started = state.completed.map Completion.buf := by
      simpa using serves.started
    rw [if_pos isHead]
    simp only [idestart, isReady, bind_some]
    refine ⟨_, rfl, ?_⟩
    unfold await
    rw [if_neg (by simp [notDone])]
    refine ⟨fun waits => { waits with }, ?_, ?_, requested, ?_, kept, Or.inl ⟨rfl, same⟩,
      serves.memory, serves.served, serves.havedisk1⟩
    · exact chain
    · exact distinct
    · dsimp only
      rw [started]
      rfl
  | cons entry rest =>
    have isHead : idequeue = some entry.1 := head
    have differs : entry.1 ≠ buf := by
      intro same
      apply outside
      rw [← same]
      exact mem_map_of_mem mem_cons_self
    rw [if_neg (by simp [isHead, differs])]
    refine ⟨_, rfl, ?_⟩
    unfold await
    rw [if_neg (by simp [notDone])]
    refine ⟨fun waits => { waits with }, ?_, ?_, requested, ?_, kept, serves.drive, serves.memory,
      serves.served, serves.havedisk1⟩
    · rw [names]
      exact chain
    · rw [names]
      exact distinct
    · exact serves.started

section

variable (waits : Waits state)

include waits

omit [DecidableEq Buf] in
theorem Waits.call (away : state.place thread = .away) (notInUse : state.NotInUse buf)
    (late : state.completed.length ≤ state.requested.length) :
    Waits (state.called thread buf) := by
  have own : (state.called thread buf).place thread = .waiting buf true state.requested.length :=
    update_self ..
  have others : ∀ other, other ≠ thread →
      (state.called thread buf).place other = state.place other :=
    fun other differs => update_of_ne differs _ _
  refine { waits with ticket := ?_, finished := ?_, owner := ?_, single := ?_ }
  · intro other isBuf asleep ticket isPlace
    dsimp only [State.called]
    by_cases same : other = thread
    · rw [same, own] at isPlace
      cases isPlace
      exact ⟨_, getElem?_concat_length⟩
    · rw [others other same] at isPlace
      obtain ⟨before, isRequest⟩ := waits.ticket other isBuf asleep ticket isPlace
      obtain ⟨early, -⟩ := List.getElem?_eq_some_iff.mp isRequest
      exact ⟨before, by rw [getElem?_append_left early, isRequest]⟩
  · intro other isBuf asleep ticket isPlace early
    by_cases same : other = thread
    · rw [same, own] at isPlace
      cases isPlace
      exact absurd late (Nat.not_le.mpr early)
    · rw [others other same] at isPlace
      exact waits.finished other isBuf asleep ticket isPlace early
  · intro ticket isBuf before isLate isRequest
    dsimp only [State.called] at isLate isRequest
    by_cases earlier : ticket < state.requested.length
    · rw [getElem?_append_left earlier] at isRequest
      obtain ⟨other, asleep, isPlace⟩ := waits.owner ticket isBuf before isLate isRequest
      refine ⟨other, asleep, ?_⟩
      rw [others other]
      · exact isPlace
      · rintro rfl
        rw [away] at isPlace
        cases isPlace
    · have isLast : ticket = state.requested.length := by
        obtain ⟨bound, -⟩ := List.getElem?_eq_some_iff.mp isRequest
        rw [length_append, length_singleton] at bound
        omega
      rw [isLast, getElem?_concat_length] at isRequest
      obtain rfl : buf = isBuf := congrArg Prod.fst (some.inj isRequest)
      exact ⟨thread, true, by rw [own, isLast]⟩
  · intro one other isBuf isOne isOther
    by_cases oneSame : one = thread
    · by_cases otherSame : other = thread
      · rw [oneSame, otherSame]
      · rw [oneSame, own] at isOne
        obtain rfl : buf = isBuf := some.inj isOne
        rw [others other otherSame] at isOther
        exact absurd isOther (notInUse other)
    · rw [others one oneSame] at isOne
      by_cases otherSame : other = thread
      · rw [otherSame, own] at isOther
        obtain rfl : buf = isBuf := some.inj isOther
        exact absurd isOne (notInUse one)
      · rw [others other otherSame] at isOther
        exact waits.single one other isBuf isOne isOther

/-! ## A thread that has been woken -/

omit [DecidableEq Buf] in
theorem Waits.stay {again : Bool} (isPlace : state.place thread = .waiting buf asleep ticket)
    (awake : ticket < state.completed.length → again = false) :
    Waits { state with
      place := update state.place thread (.waiting buf again ticket) } := by
  have own : update state.place thread
      (.waiting buf again ticket) thread = .waiting buf again ticket :=
    update_self _ _ _
  have others : ∀ other, other ≠ thread → update state.place thread
      (.waiting buf again ticket) other = state.place other :=
    fun other differs => update_of_ne differs _ _
  have bufs : ∀ other, (update state.place thread
      (.waiting buf again ticket) other).buf = (state.place other).buf := by
    intro other
    by_cases same : other = thread
    · rw [same, own, isPlace]
      rfl
    · rw [others other same]
  refine ⟨?_, ?_, ?_, ?_, waits.returned⟩
  · intro other isBuf isAsleep isTicket place
    rcases eq_or_ne other thread with rfl | same
    · cases own.symm.trans place
      exact waits.ticket other buf asleep ticket isPlace
    · exact waits.ticket other isBuf isAsleep isTicket ((others other same).symm.trans place)
  · intro other isBuf isAsleep isTicket place early
    rcases eq_or_ne other thread with rfl | same
    · cases own.symm.trans place
      exact ⟨awake early, (waits.finished other buf asleep ticket isPlace early).2⟩
    · exact waits.finished other isBuf isAsleep isTicket
        ((others other same).symm.trans place) early
  · intro isTicket isBuf before late isRequest
    obtain ⟨other, isAsleep, place⟩ := waits.owner isTicket isBuf before late isRequest
    rcases eq_or_ne other thread with rfl | same
    · cases isPlace.symm.trans place
      exact ⟨other, again, own⟩
    · exact ⟨other, isAsleep, (others other same).trans place⟩
  · intro one other isBuf isOne isOther
    exact waits.single one other isBuf ((bufs one).symm.trans isOne)
      ((bufs other).symm.trans isOther)

omit [DecidableEq Buf] in
theorem Waits.leave (isPlace : state.place thread = .waiting buf asleep ticket)
    (early : ticket < state.completed.length) :
    Waits { state with
      place := update state.place thread .away
      returned := state.returned ++ [(ticket, state.buffer buf)] } := by
  have own : update state.place thread Place.away thread =
      Place.away := update_self _ _ _
  have others : ∀ other, other ≠ thread → update state.place thread Place.away other =
        state.place other :=
    fun other differs => update_of_ne differs _ _
  have before : ∀ other isBuf, (update state.place thread
      Place.away other).buf = some isBuf → (state.place other).buf = some isBuf := by
    intro other isBuf inUse
    by_cases same : other = thread
    · rw [same, own] at inUse
      cases inUse
    · rwa [others other same] at inUse
  have waiting : ∀ other isBuf isAsleep isTicket,
      update state.place thread Place.away other = .waiting isBuf isAsleep isTicket →
          state.place other = .waiting isBuf isAsleep isTicket := by
    intro other isBuf isAsleep isTicket place
    by_cases same : other = thread
    · rw [same, own] at place
      cases place
    · rwa [others other same] at place
  refine ⟨?_, ?_, ?_, ?_, ?_⟩
  · intro other isBuf isAsleep isTicket place
    exact waits.ticket other isBuf isAsleep isTicket (waiting other isBuf isAsleep isTicket place)
  · intro other isBuf isAsleep isTicket place
    exact waits.finished other isBuf isAsleep isTicket (waiting other isBuf isAsleep isTicket place)
  · intro isTicket isBuf snapshot late isRequest
    obtain ⟨other, isAsleep, place⟩ := waits.owner isTicket isBuf snapshot late isRequest
    refine ⟨other, isAsleep, ?_⟩
    have differs : other ≠ thread := by
      rintro rfl
      cases isPlace.symm.trans place
      dsimp only at late
      omega
    exact (others other differs).trans place
  · intro one other isBuf isOne isOther
    exact waits.single one other isBuf (before one isBuf isOne) (before other isBuf isOther)
  · intro result member
    rcases mem_append.mp member with earlier | now
    · exact waits.returned result earlier
    · rw [mem_singleton.mp now]
      exact (waits.finished thread buf asleep ticket isPlace early).2

omit [DecidableEq Buf] [DecidableEq Thread] in
/-- A thread that waits finds its buffer served exactly when its request has
been completed. -/
theorem Waits.done_iff (serves : Serves disksize first state queue memdisk)
    (isPlace : state.place thread = .waiting buf asleep ticket) :
    (state.buffer buf).done = true ↔ ticket < state.completed.length := by
  constructor
  · intro done
    by_contra late
    obtain ⟨before, isRequest⟩ := waits.ticket thread buf asleep ticket isPlace
    have inQueue := serves.requested_at (ticket - state.completed.length)
    rw [Nat.add_sub_of_le (by omega), isRequest] at inQueue
    obtain ⟨kept, servable⟩ := serves.kept (buf, before) (mem_of_getElem? inQueue.symm)
    rw [kept, servable.notDone] at done
    cases done
  · intro early
    have result := (waits.finished thread buf asleep ticket isPlace early).2
    obtain ⟨completion, isCompletion, isAfter⟩ := map_eq_some_iff.mp result
    obtain ⟨valid, clean⟩ := serves.served completion (mem_of_getElem? isCompletion)
    rw [← isAfter]
    simp [Buffer.done, valid, clean]

end

/-! ## Runs -/

def Driven (disksize : Nat) (first : Nat → Data) (state : State Buf Thread Data) : Prop :=
  ∃ queue memdisk, Serves disksize first state queue memdisk ∧ Waits state

section

variable (driven : Driven disksize first state)

include driven

theorem Driven.call [Fintype Buf] (proper : state.Proper disksize (.call thread buf))
    (acts : state.act (.call thread buf) = some next) :
    Driven disksize first next := by
  obtain ⟨queue, memdisk, serves, waits⟩ := driven
  obtain ⟨busy, dev, sector, notInUse⟩ := proper
  have outside := waits.notMem serves notInUse
  simp only [act] at acts
  split at acts
  swap
  · cases acts
  rename_i away
  by_cases done : (state.buffer buf).done = true
  · have panics : next = { state with panic := some .nothingToDo } := by
      unfold iderw at acts
      rw [if_neg (by simp [busy]), if_pos done] at acts
      exact (some.inj acts).symm
    rw [panics]
    exact ⟨queue, memdisk, serves.replace _ _ _, { waits with }⟩
  · obtain ⟨after, isAfter, waiting, still⟩ :=
      serves.iderw thread outside ⟨busy, by simpa using done, dev, sector⟩
    obtain rfl : after = next := some.inj (isAfter.symm.trans acts)
    refine ⟨_, memdisk, still, waiting (waits.call away notInUse ?_)⟩
    rw [serves.requested]
    simp

theorem Driven.resume [Fintype Buf] (acts : state.act (.resume thread) = some next) :
    Driven disksize first next := by
  obtain ⟨queue, memdisk, serves, waits⟩ := driven
  simp only [act] at acts
  split at acts <;> cases acts
  rename_i buf ticket isPlace
  have done := waits.done_iff serves isPlace
  unfold await
  split
  next isDone =>
    exact ⟨queue, memdisk, serves.replace _ _ _, waits.leave isPlace (done.mp isDone)⟩
  next notDone =>
    exact ⟨queue, memdisk, serves.replace _ _ _,
      waits.stay isPlace fun early => absurd (done.mpr early) notDone⟩

omit [DecidableEq Buf] [DecidableEq Thread] in
theorem Driven.complete (small : disksize ≤ 2 ^ 28) (acts : state.complete = some next) :
    Driven disksize first next := by
  obtain ⟨queue, memdisk, serves, waits⟩ := driven
  have works : ∃ command, state.drive = .working command := by
    unfold State.complete at acts
    split at acts
    next command works => exact ⟨command, works⟩
    next => cases acts
  obtain ⟨command, works⟩ := works
  obtain ⟨after, data, contents, isAfter, rfl, still⟩ := serves.complete small works
  obtain rfl := some.inj (isAfter.symm.trans acts)
  exact ⟨queue, memdisk, still, { waits with }⟩

omit [DecidableEq Thread] in
theorem Driven.ideintr {data : Option Data} (raised : state.drive = .raised data)
    (acts : state.ideintr data = some next) : Driven disksize first next := by
  obtain ⟨queue, memdisk, serves, waits⟩ := driven
  obtain ⟨buf, buffer, rest, after, rfl, isAfter, -, -, waiting, still⟩ := serves.ideintr raised
  obtain rfl := some.inj (isAfter.symm.trans acts)
  exact ⟨rest, _, still, waiting (waits.served serves)⟩

theorem Driven.step [Fintype Buf] {label : Label Buf Thread Data} (small : disksize ≤ 2 ^ 28)
    (proper : state.Proper disksize label) (stepTo : state.step label = some next) :
    Driven disksize first next := by
  have acts : state.act label = some next := by
    unfold State.step at stepTo
    split at stepTo
    next => cases stepTo
    next => exact stepTo
  cases label with
  | call thread buf => exact driven.call proper acts
  | resume thread => exact driven.resume acts
  | rouse thread =>
    obtain ⟨queue, memdisk, serves, waits⟩ := driven
    simp only [act] at acts
    split at acts <;> cases acts
    next buf asleep ticket isPlace =>
      exact ⟨queue, memdisk, serves.replace _ _ _, waits.stay isPlace fun _ => rfl⟩
  | change buf buffer =>
    obtain ⟨queue, memdisk, serves, waits⟩ := driven
    cases acts
    exact ⟨queue, memdisk, serves.change (waits.notMem serves proper) buffer,
      waits.change proper buffer⟩
  | complete => exact driven.complete small acts
  | interrupt =>
    simp only [act] at acts
    split at acts
    next data raised => exact driven.ideintr raised acts
    next => cases acts

end

omit [DecidableEq Buf] [DecidableEq Thread] in
theorem driven_of_initial (initial : state.Initial) : Driven disksize (state.contents 1) state := by
  refine ⟨[], state.contents 1, ⟨initial.idequeue, nodup_nil, ?_, ?_, ?_,
    ⟨initial.drive, rfl⟩, ?_, ?_, initial.havedisk1⟩, ?_, ?_, ?_, ?_, ?_⟩
  · simp [initial.requested, initial.completed]
  · simp [initial.started, initial.completed]
  · simp
  · simp [initial.completed, memRun]
  · simp [initial.completed]
  · simp [initial.place]
  · simp [initial.place]
  · simp [initial.requested]
  · intro one other buf isOne
    rw [initial.place] at isOne
    cases isOne
  · simp [initial.returned]

def DiskStep (_ : State Buf Thread Data) (label : Label Buf Thread Data) : Prop :=
  label = .complete ∨ label = .interrupt

theorem Serves.drain [Fintype Buf] (small : disksize ≤ 2 ^ 28)
    (serves : Serves disksize first state queue memdisk) (running : state.panic = none) :
    ∃ final, GuardedReaches step DiskStep state final ∧ final.idequeue = none ∧
      final.completed.map request = state.requested := by
  induction queue generalizing state memdisk with
  | nil =>
    refine ⟨state, Relation.ReflTransGen.refl, serves.chain, ?_⟩
    simpa using serves.requested.symm
  | cons entry rest ih =>
    -- The interrupt takes the first call out of the queue.
    have interrupt : ∀ (middle : State Buf Thread Data) (data : Option Data),
        middle.panic = none → middle.requested = state.requested →
        Serves disksize first middle (entry :: rest) memdisk →
        middle.drive = .raised data →
        ∃ final, GuardedReaches step DiskStep middle final ∧ final.idequeue = none ∧
          final.completed.map request = state.requested := by
      intro middle data isRunning requested still raised
      obtain ⟨buf, buffer, others, after, isQueue, isAfter, sameRequested, samePanic, -, later⟩ :=
        still.ideintr raised
      obtain ⟨-, rfl⟩ := cons.inj isQueue
      obtain ⟨final, reaches, isEmpty, all⟩ := ih later (samePanic.trans isRunning)
      refine ⟨final, Relation.ReflTransGen.head ⟨.interrupt, Or.inr rfl, ?_⟩ reaches, isEmpty, ?_⟩
      · simp only [step, isRunning, act, raised]
        exact isAfter
      · rw [all, sameRequested, requested]
    rcases serves.drive with ⟨isWorking, -⟩ | ⟨data, isRaised, -⟩
    · obtain ⟨middle, data, contents, isMiddle, rfl, still⟩ :=
        serves.complete small isWorking
      obtain ⟨final, reaches, facts⟩ :=
        interrupt { state with drive := .raised data, contents }
          data running rfl still rfl
      refine ⟨final, Relation.ReflTransGen.head ⟨.complete, Or.inl rfl, ?_⟩ reaches, facts⟩
      rw [step, if_neg (by simp [running])]
      exact isMiddle
    · exact interrupt state data running rfl serves isRaised

/-- The driver refines the memory disk: calls are completed in their order, each
once, with the results of the memory disk, and none is forgotten. -/
theorem ide_refines_memide [Fintype Buf] (small : disksize ≤ 2 ^ 28) (initial : state.Initial)
    (reaches : GuardedReaches step (State.Proper disksize) state
      next) :
    ∃ queue memdisk, Chain next.qnext next.idequeue (queue.map Prod.fst) ∧
      next.requested = next.completed.map Completion.request ++ queue ∧
      next.started = next.completed.map Completion.buf ++ (queue.map Prod.fst).head?.toList ∧
      memRun disksize (state.contents 1) (next.completed.map Completion.before) =
        .ok (memdisk, next.completed.map Completion.after) ∧
      (next.idequeue = none → next.contents 1 = memdisk) ∧
      (∀ result ∈ next.returned, result.2.valid = true ∧ result.2.dirty = false ∧
          (next.completed[result.1]?).map Completion.after = some result.2) ∧
      (∀ thread buf asleep ticket,
        next.place thread = .waiting buf asleep ticket → ticket < next.completed.length →
            asleep = false ∧ (next.buffer buf).done = true) ∧
      (next.panic = none → ∃ final, GuardedReaches step DiskStep next final ∧
          final.idequeue = none ∧
          final.completed.map Completion.request = next.requested) := by
  have driven : Driven disksize (state.contents 1) next :=
    GuardedReaches.invariant reaches (Driven disksize (state.contents 1))
      (driven_of_initial initial)
      fun _ _ _ holds proper stepTo => holds.step small proper stepTo
  obtain ⟨queue, memdisk, serves, waits⟩ := driven
  refine ⟨queue, memdisk, serves.chain, serves.requested, serves.started,
    serves.memory, ?_, ?_, ?_, serves.drain small⟩
  · intro isEmpty
    have chain := serves.chain
    have drive := serves.drive
    rw [isEmpty] at chain
    cases queue with
    | nil => exact drive.2
    | cons entry rest => cases chain.1
  · intro result member
    have isResult := waits.returned result member
    obtain ⟨completion, isCompletion, isAfter⟩ := map_eq_some_iff.mp isResult
    obtain ⟨valid, clean⟩ := serves.served completion (mem_of_getElem? isCompletion)
    rw [isAfter] at valid clean
    exact ⟨valid, clean, isResult⟩
  · intro thread buf asleep ticket isPlace early
    exact ⟨(waits.finished thread buf asleep ticket isPlace early).1,
      (waits.done_iff serves isPlace).mpr early⟩

end Refinement

/-- Two buffers, two threads, and a disk of sectors that hold numbers. -/
def twoBuffers : State Bool Bool Nat where
  buffer := fun buf => ⟨true, false, buf, 1, 3, 7⟩
  qnext := fun _ => none
  idequeue := none
  havedisk1 := true
  drive := .ready
  contents := fun _ sector => sector
  place := fun _ => .away
  panic := none
  requested := []
  started := []
  completed := []
  returned := []

/-- A write and a read of the same sector: the read is called while the disk
works on the write, and returns what was written. -/
theorem ide_refines_memide_twoBuffers :
    ∃ next, GuardedReaches step (State.Proper 16) twoBuffers next ∧
      next.returned.map (fun result => (result.1, result.2.data)) = [(1, 7), (0, 7)] ∧
      ∃ queue memdisk,
        next.requested = next.completed.map request ++ queue ∧
        memRun 16 (twoBuffers.contents 1) (next.completed.map before) =
          .ok (memdisk, next.completed.map after) := by
  obtain ⟨next, run, returned⟩ : ∃ next ∈ runLabels (restrict step (State.Proper 16)) twoBuffers
      [.call true true, .call false false, .complete, .rouse false,
        .resume false, .interrupt, .complete, .interrupt, .resume false,
        .resume true],
      next.returned.map (fun result => (result.1, result.2.data)) =
        [(1, 7), (0, 7)] := by
    decide +kernel
  have reaches := guardedReaches_of_runLabels _ run
  have initial : twoBuffers.Initial := ⟨rfl, rfl, rfl, fun _ => rfl, rfl, rfl, rfl, rfl, rfl⟩
  obtain ⟨queue, memdisk, -, requested, -, memory, -⟩ :=
    ide_refines_memide (by decide) initial reaches
  exact ⟨next, reaches, returned, queue, memdisk, requested, memory⟩

end Ide

end Xv6Kthreads
