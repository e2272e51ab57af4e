import Xv6Kthreads.FsTransfer
import Xv6Kthreads.Pipe
import Xv6Kthreads.UserSpace

/-!
# User buffers of `read` and `write`

`argptr` checks a buffer once, as a 32-bit address and an `int` that is added
to it; `fileread` and `filewrite` then touch the buffer byte by byte, and
`readi` takes the count as unsigned.  This file follows the addresses that the
two calls touch.  What the other side does (the other end of a pipe, the
keyboard) is arbitrary.

The calls stay inside the buffer, and the buffer lies in the process unless the
sum of its address and its size wraps around.  With such a sum a negative count
passes `argptr`, and it becomes a huge one in `readi`.
-/

namespace Xv6Kthreads

open FileSystem UInt32

namespace UserBuffers

/-- What an open file leads to: `off` is the offset of the file, `size` that of
the inode. -/
inductive Target where
  | none
  | pipe
  | regular (off size : UInt32)
  | device (major : Int)

structure OpenFile where
  readable : Bool
  writable : Bool
  target : Target

/-- What happens around a call: the pipe and `killed` at each section, and what
the console delivers. -/
structure Surroundings where
  pipes : List (Pipe × Bool)
  characters : List UInt8
  killed : Bool

/-- The user addresses that a call touches, in order, and the value that it
returns.  A call that sleeps or has panicked has not returned. -/
structure Transfer where
  touched : List UInt32
  returned : Option Int

def span (addr : UInt32) (count : Nat) : List UInt32 :=
  (List.range count).map fun index => addr + ofNat index

def piperead (addr : UInt32) (n : Int) : List (Pipe × Bool) → Transfer
  | [] => ⟨[], none⟩
  | (pipe, killed) :: later =>
    match pipe.piperead killed n with
    | (_, bytes, .returns value) => ⟨span addr bytes.length, some value⟩
    | (_, _, .sleeps _) => piperead addr n later

/-- `done` bytes have been stored and `left` are still to be. -/
def pipewrite (addr : UInt32) (n : Int) (done : Nat) (left : List UInt8) :
    List (Pipe × Bool) → Transfer
  | [] => ⟨[], none⟩
  | (pipe, killed) :: later =>
    match pipe.pipewrite killed n left with
    | (_, count, .returns value) => ⟨span (addr + ofNat done) count, some value⟩
    | (_, count, .sleeps rest) =>
      let following := pipewrite addr n (done + count) rest later
      ⟨span (addr + ofNat done) count ++ following.touched, following.returned⟩

def consoleLoop (killed : Bool) (target : Nat) (dst : UInt32) : Nat → List UInt8 → Transfer
  | 0, _ => ⟨[], some target⟩
  | _ + 1, [] => ⟨[], if killed then some (-1) else none⟩
  | n + 1, c :: characters =>
    -- control-D ends the input, and so does a new line
    if c = 4 then
      ⟨[], some (target - (n + 1 : Nat))⟩
    else if c = 10 then
      ⟨[dst], some (target - n)⟩
    else
      let following := consoleLoop killed target (dst + 1) n characters
      ⟨dst :: following.touched, following.returned⟩

def consoleread (around : Surroundings) (dst : UInt32) (n : Int) : Transfer :=
  consoleLoop around.killed n.toNat dst n.toNat around.characters

def consolewrite (buf : UInt32) (n : Int) : Transfer :=
  ⟨span buf n.toNat, some n⟩

/-- The copying loop of `readi` and `writei`: the addresses of `left` bytes. -/
def copyLoop : (fuel off left : Nat) → (addr : UInt32) → List UInt32
  | 0, _, _, _ => []
  | fuel + 1, off, left, addr =>
    if left = 0 then
      []
    else
      let m := transferred off left
      span addr m ++ copyLoop fuel (off + m) (left - m) (addr + ofNat m)

/-- `readi` on a regular file; the count is unsigned. -/
def readi (dst off size n : UInt32) : Transfer :=
  match readCount size.toNat off.toNat n.toNat with
  | none => ⟨[], some (-1)⟩
  | some count => ⟨copyLoop count off.toNat count dst, some (signed (ofNat count))⟩

def writei (src off size n : UInt32) : Transfer :=
  if off.toNat > size.toNat ∨ (off.toNat + n.toNat) % 2 ^ 32 < off.toNat then
    ⟨[], some (-1)⟩
  else if off.toNat + n.toNat > MAXFILE * BSIZE then
    ⟨[], some (-1)⟩
  else
    ⟨copyLoop n.toNat off.toNat n.toNat src, some (signed n)⟩

def CONSOLE : Int := 1

variable (file : OpenFile)

def fileread (around : Surroundings) (addr n : UInt32) : Transfer :=
  if file.readable = false then
    ⟨[], some (-1)⟩
  else
    match file.target with
    | .pipe => piperead addr (signed n) around.pipes
    | .regular off size => readi addr off size n
    | .device major =>
      if major = CONSOLE then
        consoleread around addr (signed n)
      else
        ⟨[], some (-1)⟩
    | .none => ⟨[], none⟩

/-- One transaction of `filewrite`: the transfer, and the file afterwards. -/
def filewriteChunk (target : Target) (src n : UInt32) : Transfer × Target :=
  match target with
  | .regular off size =>
    let written := writei src off size n
    if written.returned = some (signed n) then
      (written, .regular (off + n) (max size (off + n)))
    else
      (written, target)
  | .device major =>
    if major = CONSOLE then
      (consolewrite src (signed n), target)
    else
      (⟨[], some (-1)⟩, target)
  | _ => (⟨[], none⟩, target)

/-- The loop of `filewrite` with `i` of the `n` bytes written. -/
def filewriteLoop (addr : UInt32) (n : Nat) : (fuel : Nat) → (i : Nat) → Target → Transfer
  | 0, _, _ => ⟨[], none⟩
  | fuel + 1, i, target =>
    if i < n then
      let n1 := min (n - i) maxChunk
      let chunk := filewriteChunk target (addr + ofNat i) (ofNat n1)
      match chunk.1.returned with
      | some r =>
        if r < 0 then
          ⟨chunk.1.touched, some (-1)⟩
        else if r ≠ n1 then
          -- panic("short filewrite")
          ⟨chunk.1.touched, none⟩
        else
          let following := filewriteLoop addr n fuel (i + n1) chunk.2
          ⟨chunk.1.touched ++ following.touched, following.returned⟩
      | none => ⟨chunk.1.touched, none⟩
    else
      ⟨[], some n⟩

def filewrite (around : Surroundings) (memory : UInt32 → UInt8) (addr n : UInt32) : Transfer :=
  if file.writable = false then
    ⟨[], some (-1)⟩
  else
    match file.target with
    | .pipe =>
      pipewrite addr (signed n) 0 ((span addr (signed n).toNat).map memory) around.pipes
    | .none => ⟨[], none⟩
    | target =>
      if signed n < 0 then
        ⟨[], some (-1)⟩
      else
        filewriteLoop addr (signed n).toNat ((signed n).toNat + 1) 0 target

section Calls

variable (user : UserSpace) (files : FileId → OpenFile)
variable (around : Surroundings)

/-- The count of `read` and `write` is word 2, and the pointer, word 1, is
checked with it. -/
def sysTransfer (transfer : OpenFile → UInt32 → UInt32 → Transfer) : Transfer :=
  match user.argfd 0, user.argint 2 with
  | some f, some n =>
    match user.argptr 1 n with
    | some p => transfer (files f.2) p n
    | none => ⟨[], some (-1)⟩
  | _, _ => ⟨[], some (-1)⟩

def sysRead : Transfer :=
  sysTransfer user files fun file => fileread file around

def sysWrite : Transfer :=
  sysTransfer user files fun file => filewrite file around user.memory

end Calls

/-! ## Confinement -/

/-- Every touched address is less than `n` bytes after `p`, as 32-bit words
count. -/
def Within (p n : UInt32) (touched : List UInt32) : Prop :=
  ∀ address ∈ touched, address - p < n

theorem within_nil (p n : UInt32) : Within p n [] := by
  simp [Within]

theorem Within.append {p n : UInt32} {first second : List UInt32}
    (firstWithin : Within p n first) (secondWithin : Within p n second) :
    Within p n (first ++ second) := by
  intro address member
  rcases List.mem_append.mp member with inFirst | inSecond
  · exact firstWithin address inFirst
  · exact secondWithin address inSecond

/-- A span at an offset in the buffer that does not reach over its end. -/
theorem within_span {p n offset : UInt32} {count : Nat} (fits : offset.toNat + count ≤ n.toNat) :
    Within p n (span (p + offset) count) := by
  intro address member
  obtain ⟨index, bounded, rfl⟩ := List.mem_map.mp member
  rw [List.mem_range] at bounded
  rw [UInt32.lt_iff_toNat_lt, UInt32.toNat_sub, UInt32.toNat_add,
    UInt32.toNat_add, UInt32.toNat_ofNat']
  have start := p.toNat_lt
  omega

variable {touched : List UInt32}

/-- A part of the buffer, seen from the beginning of the buffer. -/
theorem Within.shift {p n offset count : UInt32} (within : Within (p + offset) count touched)
    (fits : offset.toNat + count.toNat ≤ n.toNat) : Within p n touched := by
  intro address member
  have inPart := within address member
  have start := p.toNat_lt
  rw [UInt32.lt_iff_toNat_lt, UInt32.toNat_sub] at inPart ⊢
  rw [UInt32.toNat_add] at inPart
  omega

theorem signed_eq {n : UInt32} (small : n.toNat < 2 ^ 31) : signed n = (n.toNat : Int) := by
  rw [signed, BitVec.toInt_eq_toNat_cond, toNat_toBitVec, if_pos (by omega)]

theorem lt_of_signed_nonneg {n : UInt32} (nonneg : 0 ≤ signed n) : n.toNat < 2 ^ 31 := by
  have below := n.toNat_lt
  rw [signed, BitVec.toInt_eq_toNat_cond, toNat_toBitVec] at nonneg
  split at nonneg <;> omega

theorem signed_toNat {n : UInt32} (nonneg : 0 ≤ signed n) : (signed n).toNat = n.toNat := by
  rw [signed_eq (lt_of_signed_nonneg nonneg), Int.toNat_natCast]

section Loops

variable {p n : UInt32}

theorem fetch_length_le (pipe : Pipe) (count : Nat) : (pipe.fetch count).2.length ≤ count := by
  induction count generalizing pipe with
  | zero => simp [Pipe.fetch]
  | succ count ih =>
    rw [Pipe.fetch]
    split
    next => simp
    next => simpa using ih pipe.drop

theorem piperead_within (count : Int) (bounded : count.toNat ≤ n.toNat)
    (pipes : List (Pipe × Bool)) :
    Within p n (piperead p count pipes).touched := by
  induction pipes with
  | nil => exact within_nil p n
  | cons entry later ih =>
    obtain ⟨pipe, killed⟩ := entry
    rw [piperead]
    split
    next bytes value result =>
      have copied : bytes.length ≤ count.toNat := by
        simp only [Pipe.piperead] at result
        split at result
        · split at result <;> cases result
          exact Nat.zero_le _
        · cases result
          exact fetch_length_le pipe count.toNat
      have whole : Within p n (span (p + 0) bytes.length) :=
        within_span (by simpa using Nat.le_trans copied bounded)
      simpa using whole
    next => exact ih

/-- What a section of `pipewrite` leaves is what it has not counted. -/
theorem pipewrite_section {pipe after : Pipe} {killed : Bool} {value : Int}
    {left : List UInt8} {count : Nat} {progress : PipeProgress (List UInt8)}
    (result : pipe.pipewrite killed value left = (after, count, progress)) :
    count ≤ left.length ∧ ∀ rest, progress = .sleeps rest → rest = left.drop count := by
  have counted := Pipe.store_le pipe left
  simp only [Pipe.pipewrite] at result
  split at result
  next =>
    cases result
    exact ⟨counted, fun rest sleeps => by cases sleeps⟩
  next byte bytes isRest =>
    split at result <;> cases result
    next => exact ⟨counted, fun rest sleeps => by cases sleeps⟩
    next =>
      refine ⟨counted, fun rest sleeps => ?_⟩
      cases sleeps
      exact isRest.symm

theorem pipewrite_within (value : Int) (pipes : List (Pipe × Bool)) (done : Nat) (left : List UInt8)
    (bounded : done + left.length ≤ n.toNat) :
    Within p n (pipewrite p value done left pipes).touched := by
  induction pipes generalizing done left with
  | nil => exact within_nil p n
  | cons entry later ih =>
    have below := n.toNat_lt
    have offset : (ofNat done).toNat = done := by
      rw [toNat_ofNat', Nat.mod_eq_of_lt (by omega)]
    rw [pipewrite]
    split
    next count returned result =>
      obtain ⟨counted, -⟩ := pipewrite_section result
      exact within_span (by omega)
    next count rest result =>
      obtain ⟨counted, isRest⟩ := pipewrite_section result
      have later := ih (done + count) rest (by
        rw [isRest rest rfl, List.length_drop]
        omega)
      exact Within.append (within_span (by omega)) later

theorem consoleLoop_within (killed : Bool) (target : Nat) (count : Nat) (characters : List UInt8)
    (offset : UInt32) (bounded : offset.toNat + count ≤ n.toNat) :
    Within p n (consoleLoop killed target (p + offset) count characters).touched := by
  induction count generalizing characters offset with
  | zero => exact within_nil p n
  | succ count ih =>
    cases characters with
    | nil => exact within_nil p n
    | cons c characters =>
      have below := n.toNat_lt
      have first : Within p n [p + offset] := by
        have one : Within p n (span (p + offset) 1) := within_span (by omega)
        simpa [span] using one
      rw [consoleLoop]
      split
      next => exact within_nil p n
      next =>
        split
        next => exact first
        next =>
          have next : (offset + 1).toNat = offset.toNat + 1 := by
            exact Nat.mod_eq_of_lt (by
              change offset.toNat + 1 < 2 ^ 32
              omega)
          have following := ih characters (offset + 1) (by omega)
          rw [← UInt32.add_assoc] at following
          exact first.append following

theorem copyLoop_within (fuel off left : Nat) (offset : UInt32)
    (fits : offset.toNat + left ≤ n.toNat) :
    Within p n (copyLoop fuel off left (p + offset)) := by
  induction fuel generalizing off left offset with
  | zero => exact within_nil p n
  | succ fuel ih =>
    rw [copyLoop]
    split
    next => exact within_nil p n
    next more =>
      obtain ⟨-, most⟩ := transferred_pos off more
      generalize transferred off left = m at most ⊢
      have below := n.toNat_lt
      have sum : (offset + ofNat m).toNat = offset.toNat + m := by
        rw [UInt32.toNat_add, toNat_ofNat']
        omega
      have following := ih (off + m) (left - m) (offset + ofNat m) (by omega)
      rw [← UInt32.add_assoc] at following
      exact Within.append (within_span (by omega)) following

theorem copyLoop_start {count : Nat} (off : Nat) (most : count ≤ n.toNat) :
    Within p n (copyLoop count off count p) := by
  have whole := copyLoop_within (p := p) (n := n) count off count 0 (by simpa using most)
  rwa [UInt32.add_zero] at whole

/-- Every byte of the buffer is copied. -/
theorem mem_copyLoop {fuel left index : Nat} (off : Nat) (addr : UInt32) (enough : left ≤ fuel)
    (inside : index < left) : addr + ofNat index ∈ copyLoop fuel off left addr := by
  induction fuel generalizing off left index addr with
  | zero => omega
  | succ fuel ih =>
    obtain ⟨positive, most⟩ := transferred_pos off (show left ≠ 0 by omega)
    rw [copyLoop, if_neg (by omega)]
    generalize transferred off left = m at positive most ⊢
    rw [List.mem_append]
    by_cases isHere : index < m
    · exact Or.inl (List.mem_map.mpr ⟨index, List.mem_range.mpr isHere, rfl⟩)
    · have later := ih (off + m) (addr + ofNat m) (by omega) (show index - m < left - m by omega)
      have split : m + (index - m) = index := by omega
      rw [UInt32.add_assoc, ← ofNat_add, split] at later
      exact Or.inr later

theorem readi_within (off size : UInt32) : Within p n (readi p off size n).touched := by
  rw [readi]
  split
  next => exact within_nil p n
  next count isCount => exact copyLoop_start off.toNat (readCount_le isCount).1

theorem writei_within (off size : UInt32) : Within p n (writei p off size n).touched := by
  rw [writei]
  split
  next => exact within_nil p n
  next =>
    split
    next => exact within_nil p n
    next => exact copyLoop_start off.toNat (Nat.le_refl _)

end Loops

/-! ### The calls of the file system -/

section FileSystem

open Sections Act

variable [Superblock] {fs : Fs} {ip : Entry} {size : UInt32}
  (isSize : (fs.inode ip).copy.size = size.toNat)

include isSize

theorem readi_returned (small : size.toNat < 2 ^ 31) (dst off n : UInt32) :
    (FileSystem.readi ip off.toNat n.toNat).wp fs (fun _ => True) fun result _ =>
      (readi dst off size n).returned = some result.1 := by
  unfold FileSystem.readi
  rw [wp_bind, wp_read, isSize, readi]
  cases isCount : readCount size.toNat off.toNat n.toNat with
  | none => rfl
  | some count =>
    have most := readCount_le isCount
    have count : (ofNat count).toNat = count := by
      rw [toNat_ofNat']
      omega
    rw [wp_bind]
    refine wp_of_forall (fun _ => trivial) fun data after => congrArg some ?_
    rw [signed_eq (by omega), count]

theorem writei_returned (bytes : Bytes) (src off n : UInt32) :
    (FileSystem.writei ip bytes off.toNat n.toNat).wp fs (fun _ => True) fun result _ =>
      (writei src off size n).returned = some result := by
  unfold FileSystem.writei
  rw [wp_bind, wp_read, isSize, writei]
  by_cases refused : off.toNat > size.toNat ∨ (off.toNat + n.toNat) % 2 ^ 32 < off.toNat
  · rw [if_pos refused, if_pos refused]
    rfl
  · rw [if_neg refused, if_neg refused]
    by_cases large : off.toNat + n.toNat > MAXFILE * BSIZE
    · rw [if_pos large, if_pos large]
      rfl
    · have limit : MAXFILE * BSIZE = 71680 := rfl
      have count : some (signed n) = some (n.toNat : Int) := by rw [signed_eq (by omega)]
      rw [if_neg large, if_neg large, wp_bind]
      refine wp_of_forall (fun _ => trivial) fun _ after => ?_
      split
      · exact count
      · exact count

end FileSystem

theorem signed_toNat_le (n : UInt32) : (signed n).toNat ≤ n.toNat := by
  by_cases nonneg : 0 ≤ signed n
  · exact Nat.le_of_eq (signed_toNat nonneg)
  · rw [Int.toNat_of_nonpos (by omega)]
    exact Nat.zero_le _

/-- `fileread` touches only the `n` bytes after `p`, for every unsigned
`n`. -/
theorem fileread_within (around : Surroundings) (p n : UInt32) :
    Within p n (fileread file around p n).touched := by
  rw [fileread]
  split
  next => exact within_nil p n
  next =>
    split
    next => exact piperead_within _ (signed_toNat_le n) _
    next off size _ => exact readi_within off size
    next =>
      split
      next =>
        have whole := consoleLoop_within (p := p) (n := n) around.killed
          (signed n).toNat (signed n).toNat around.characters 0
          (by simpa using signed_toNat_le n)
        rwa [UInt32.add_zero] at whole
      next => exact within_nil p n
    next => exact within_nil p n

theorem filewriteChunk_within (target : Target) (src n : UInt32) :
    Within src n (filewriteChunk target src n).1.touched := by
  cases target with
  | regular off size =>
    simp only [filewriteChunk]
    split <;> exact writei_within off size
  | device major =>
    simp only [filewriteChunk]
    split
    next =>
      have whole : Within src n (span (src + 0) (signed n).toNat) :=
        within_span (by simpa using signed_toNat_le n)
      rwa [UInt32.add_zero] at whole
    next => exact within_nil src n
  | none => exact within_nil src n
  | pipe => exact within_nil src n

theorem filewriteLoop_within (p n : UInt32) (fuel i : Nat) (target : Target)
    (started : i ≤ n.toNat) :
    Within p n (filewriteLoop p n.toNat fuel i target).touched := by
  induction fuel generalizing i target with
  | zero => exact within_nil p n
  | succ fuel ih =>
    rw [filewriteLoop]
    split
    next =>
      have part := Nat.min_le_left (n.toNat - i) maxChunk
      generalize min (n.toNat - i) maxChunk = n1 at part ⊢
      have below := n.toNat_lt
      have offset : (ofNat i).toNat = i := by
        rw [toNat_ofNat', Nat.mod_eq_of_lt (by omega)]
      have count : (ofNat n1).toNat = n1 := by
        rw [toNat_ofNat', Nat.mod_eq_of_lt (by omega)]
      have chunk : Within p n (filewriteChunk target (p + ofNat i) (ofNat n1)).1.touched :=
        (filewriteChunk_within target _ _).shift (by omega)
      dsimp only
      split
      next =>
        split
        next => exact chunk
        next =>
          split
          next => exact chunk
          next => exact chunk.append (ih (i + n1) _ (by omega))
      next => exact chunk
    next => exact within_nil p n

theorem filewrite_within (around : Surroundings) (memory : UInt32 → UInt8) (p n : UInt32) :
    Within p n (filewrite file around memory p n).touched := by
  rw [filewrite]
  split
  next => exact within_nil p n
  next =>
    split
    next =>
      apply pipewrite_within
      simpa [span] using signed_toNat_le n
    next => exact within_nil p n
    next =>
      split
      next => exact within_nil p n
      next nonneg =>
        rw [signed_toNat (by omega)]
        exact filewriteLoop_within p n _ 0 _ (Nat.zero_le _)

variable {user : UserSpace}

/-- For a count that is not negative the test of `argptr` does not wrap, and
what it accepts lies in the process. -/
theorem checkptr_confines {addr p n : UInt32} (nonneg : 0 ≤ signed n)
    (accepted : user.checkptr addr n = some p) (within : Within p n touched) :
    ∀ address ∈ touched, addr.toNat ≤ address.toNat ∧ address.toNat < addr.toNat + n.toNat ∧
        address.toNat < user.sz.toNat := by
  intro address member
  have inBuffer := within address member
  have size := user.sz_le
  have kernbase : KERNBASE = 2 ^ 31 := rfl
  have small := lt_of_signed_nonneg nonneg
  rw [UserSpace.checkptr] at accepted
  split at accepted <;> cases accepted
  rename_i refused
  simp only [ge_iff_le, gt_iff_lt, le_iff_toNat_le, lt_iff_toNat_lt, not_or, not_le, not_lt,
    UInt32.toNat_add] at refused
  rw [UInt32.lt_iff_toNat_lt, UInt32.toNat_sub] at inBuffer
  have place := address.toNat_lt
  omega

/-- The addresses lie in the buffer of `n` bytes at `p` and in the process. -/
def Confined (user : UserSpace) (p n : UInt32) (touched : List UInt32) : Prop :=
  ∀ address ∈ touched, p.toNat ≤ address.toNat ∧
    address.toNat < p.toNat + n.toNat ∧ address.toNat < user.sz.toNat

/-- The call touches only its buffer in the process, and returns -1 if the count
is negative. -/
structure Proper (user : UserSpace) (p n : UInt32) (transfer : Transfer) : Prop where
  confined : Confined user p n transfer.touched
  rejected : signed n < 0 → transfer.returned = some (-1)

/-- Nothing is touched, and the call returns -1. -/
theorem proper_refused (p n : UInt32) : Proper user p n ⟨[], some (-1)⟩ :=
  ⟨by simp [Confined], fun _ => rfl⟩

/-- The end of the buffer wraps around and seems to lie in the process, although
the count is negative. -/
def Wraps (user : UserSpace) (p n : UInt32) : Prop :=
  signed n < 0 ∧ p < user.sz ∧ p + n ≤ user.sz

theorem checkptr_eq (p n : UInt32) : user.checkptr p n =
      if p < user.sz ∧ p + n ≤ user.sz then some p else none := by
  rw [UserSpace.checkptr, ← ite_not]
  simp only [not_or, ge_iff_le, gt_iff_lt, UInt32.not_le, UInt32.not_lt]

/-- `argfd`, `argint` and `argptr` accept words 0, 2 and 1. -/
structure Accepted (user : UserSpace) (f : Fd × FileId) : Prop where
  descriptor : user.argfd 0 = some f
  pointer : user.Inside 1
  count : user.Inside 2

section Exact

variable {transfer : OpenFile → UInt32 → UInt32 → Transfer} {files : FileId → OpenFile}

/-- What is left to `fileread` and `filewrite` are the buffers that wrap
around. -/
theorem proper_sysTransfer_iff (within : ∀ file p n, Within p n (transfer file p n).touched) :
    Proper user (user.word 1) (user.word 2) (sysTransfer user files transfer) ↔
      ∀ f, Accepted user f → Wraps user (user.word 1) (user.word 2) →
        Proper user (user.word 1) (user.word 2)
          (transfer (files f.2) (user.word 1) (user.word 2)) := by
  have refused : Proper user (user.word 1) (user.word 2) ⟨[], some (-1)⟩ := proper_refused ..
  rw [sysTransfer, UserSpace.argint_eq]
  cases descriptor : user.argfd 0 with
  | none => exact iff_of_true refused fun f accepted => nomatch descriptor.symm.trans accepted.1
  | some f =>
    by_cases count : user.Inside 2
    · rw [if_pos count]
      dsimp only
      rw [UserSpace.argptr, UserSpace.argint_eq]
      by_cases pointer : user.Inside 1
      · have accepted : Accepted user f := ⟨descriptor, pointer, count⟩
        rw [if_pos pointer, Option.bind_eq_bind, Option.bind_some]
        by_cases isIn : user.word 1 < user.sz ∧ user.word 1 + user.word 2 ≤ user.sz
        · have isSome := (checkptr_eq (user.word 1) (user.word 2)).trans (if_pos isIn)
          rw [isSome]
          dsimp only
          refine ⟨fun proper g other _ => ?_, fun wrapping => ?_⟩
          · rw [Option.some.inj (other.descriptor.symm.trans descriptor)]
            exact proper
          · by_cases negative : signed (user.word 2) < 0
            · exact wrapping f accepted ⟨negative, isIn⟩
            · exact ⟨checkptr_confines (by omega) isSome (within _ _ _),
                fun isNegative => absurd isNegative negative⟩
        · rw [checkptr_eq, if_neg isIn]
          exact iff_of_true refused fun _ _ wraps => absurd wraps.2 isIn
      · rw [if_neg pointer]
        exact iff_of_true refused fun _ accepted => absurd accepted.pointer pointer
    · rw [if_neg count]
      exact iff_of_true refused fun _ accepted => absurd accepted.count count

end Exact

/-- A reader of the pipe sleeps until its process is killed. -/
def KilledAsleep : List (Pipe × Bool) → Prop
  | [] => False
  | (pipe, killed) :: later =>
    (pipe.empty = true ∧ pipe.writeopen = true) ∧ (killed = true ∨ KilledAsleep later)

/-- The files from which `fileread` reads nothing if the count is negative. -/
def RefusesRead (file : OpenFile) (around : Surroundings) (n : UInt32) : Prop :=
  file.readable = false ∨ match file.target with
    | .none => False
    | .pipe => KilledAsleep around.pipes
    | .regular off size => size < off ∨ (off.toNat + n.toNat) % 2 ^ 32 < off.toNat
    | .device major => major ≠ CONSOLE

/-- The files to which `filewrite` refuses to write a negative count; `pipewrite`
returns the count. -/
def RefusesWrite (file : OpenFile) (around : Surroundings) (n : UInt32) : Prop :=
  file.writable = false ∨ match file.target with
    | .none => False
    | .pipe => signed n = -1 ∧ around.pipes ≠ []
    | .regular _ _ | .device _ => True

section Refusing

variable {p n : UInt32} (negative : signed n < 0)

include negative

theorem piperead_proper_iff (pipes : List (Pipe × Bool)) :
    Proper user p n (piperead p (signed n) pipes) ↔ KilledAsleep pipes := by
  have zero : (signed n).toNat = 0 := Int.toNat_of_nonpos (by omega)
  induction pipes with
  | nil =>
    refine iff_of_false (fun proper => ?_) id
    cases proper.rejected negative
  | cons entry later ih =>
    obtain ⟨pipe, killed⟩ := entry
    rw [piperead, Pipe.piperead, zero, KilledAsleep]
    by_cases sleeps : pipe.empty = true ∧ pipe.writeopen = true
    · rw [if_pos sleeps]
      cases killed with
      | true => exact iff_of_true (proper_refused p n) ⟨sleeps, Or.inl rfl⟩
      | false => simpa [sleeps] using ih
    · rw [if_neg sleeps]
      refine iff_of_false (fun proper => ?_) fun waits => sleeps waits.1
      cases proper.rejected negative

/-- What `readi` does not refuse it copies, and it returns the count, or -1 after
copying to almost every address. -/
theorem readi_proper_iff (inside : p < user.sz) (off size : UInt32) :
    Proper user p n (readi p off size n) ↔
      size < off ∨ (off.toNat + n.toNat) % 2 ^ 32 < off.toNat := by
  have isRefused : size < off ∨ (off.toNat + n.toNat) % 2 ^ 32 < off.toNat ↔
      readCount size.toNat off.toNat n.toNat = none := by
    rw [readCount_eq_none_iff, lt_iff_toNat_lt]
  rw [isRefused, readi]
  cases isCount : readCount size.toNat off.toNat n.toNat with
  | none => exact iff_of_true (proper_refused p n) rfl
  | some count =>
    refine iff_of_false (fun proper => ?_) nofun
    have most := (readCount_le isCount).1
    have word := n.toNat_lt
    have isLarge : signed (ofNat count) = -1 := Option.some.inj (proper.rejected negative)
    have large : count = 2 ^ 32 - 1 := by
      rw [signed, BitVec.toInt_eq_toNat_cond, toNat_toBitVec, toNat_ofNat'] at isLarge
      split at isLarge <;> omega
    -- the address `KERNBASE` is in no process
    have size := user.sz_le
    have kernbase : KERNBASE = 2 ^ 31 := rfl
    rw [lt_iff_toNat_lt] at inside
    have touched := mem_copyLoop off.toNat p (Nat.le_refl count)
      (show 2 ^ 31 - p.toNat < count by omega)
    obtain ⟨-, -, inProcess⟩ := proper.confined _ touched
    rw [UInt32.toNat_add, toNat_ofNat'] at inProcess
    omega

theorem fileread_proper_iff (inside : p < user.sz) (file : OpenFile) (around : Surroundings) :
    Proper user p n (fileread file around p n) ↔ RefusesRead file around n := by
  rw [fileread, RefusesRead]
  by_cases closed : file.readable = false
  · rw [if_pos closed]
    exact iff_of_true (proper_refused p n) (Or.inl closed)
  · rw [if_neg closed, or_iff_right closed]
    cases file.target with
    | none => exact iff_of_false (fun proper => nomatch proper.rejected negative) id
    | pipe => exact piperead_proper_iff negative around.pipes
    | regular off size => exact readi_proper_iff negative inside off size
    | device major =>
      by_cases isConsole : major = CONSOLE
      · have zero : (signed n).toNat = 0 := Int.toNat_of_nonpos (by omega)
        simp only [if_pos isConsole, consoleread, zero, consoleLoop]
        exact iff_of_false (fun proper => nomatch proper.rejected negative) (not_not.mpr isConsole)
      · dsimp only
        rw [if_neg isConsole]
        exact iff_of_true (proper_refused p n) isConsole

theorem filewrite_proper_iff (file : OpenFile) (around : Surroundings) (memory : UInt32 → UInt8) :
    Proper user p n (filewrite file around memory p n) ↔ RefusesWrite file around n := by
  rw [filewrite, RefusesWrite]
  by_cases closed : file.writable = false
  · rw [if_pos closed]
    exact iff_of_true (proper_refused p n) (Or.inl closed)
  · rw [if_neg closed, or_iff_right closed]
    cases file.target with
    | none => exact iff_of_false (fun proper => nomatch proper.rejected negative) id
    | pipe =>
      have zero : (signed n).toNat = 0 := Int.toNat_of_nonpos (by omega)
      dsimp only
      rw [zero]
      cases around.pipes with
      | nil => exact iff_of_false (fun proper => nomatch proper.rejected negative) (by simp)
      | cons entry later =>
        refine ⟨fun proper => ⟨Option.some.inj (proper.rejected negative), nofun⟩, ?_⟩
        rintro ⟨isMinusOne, -⟩
        exact ⟨by simp [pipewrite, Pipe.pipewrite, Pipe.store, span, Confined],
          fun _ => congrArg some isMinusOne⟩
    | regular off size =>
      dsimp only
      rw [if_pos negative]
      exact iff_of_true (proper_refused p n) trivial
    | device major =>
      dsimp only
      rw [if_pos negative]
      exact iff_of_true (proper_refused p n) trivial

end Refusing

/-- `read` and `write` access only the user addresses in `[p, p + n)`, inside
the process, and reject negative counts, but for buffers that wrap around in a
file that does not refuse the count itself. -/
theorem buffers_confined_iff (user : UserSpace) (files : FileId → OpenFile)
    (around : Surroundings) :
    (Proper user (user.word 1) (user.word 2) (sysRead user files around) ↔
      ∀ f, Accepted user f → Wraps user (user.word 1) (user.word 2) →
        RefusesRead (files f.2) around (user.word 2)) ∧
    (Proper user (user.word 1) (user.word 2) (sysWrite user files around) ↔
      ∀ f, Accepted user f → Wraps user (user.word 1) (user.word 2) →
        RefusesWrite (files f.2) around (user.word 2)) := by
  constructor
  · rw [sysRead, proper_sysTransfer_iff fun file => fileread_within file around]
    refine forall_congr' fun f => forall_congr' fun _ => forall_congr' fun wraps => ?_
    exact fileread_proper_iff wraps.1 wraps.2.1 (files f.2) around
  · rw [sysWrite, proper_sysTransfer_iff fun file => filewrite_within file around user.memory]
    refine forall_congr' fun f => forall_congr' fun _ => forall_congr' fun wraps => ?_
    exact filewrite_proper_iff wraps.1 (files f.2) around user.memory

/-- A process of one page calls `read(0, p, n)` or `write(0, p, n)`. -/
def caller (p n : UInt32) : UserSpace where
  sz := 0x1000
  sz_le := page_le_kernbase
  esp := 0x100
  memory := fun addr =>
    if addr < 0x108 then 0
    else if addr < 0x10c then (p >>> (8 * (addr - 0x108))).toUInt8
    else if addr < 0x110 then (n >>> (8 * (addr - 0x10c))).toUInt8
    else 0
  ofile := fun fd => if fd.val = 0 then some ⟨0, nfile_pos⟩ else none

/-- Every open file is a regular file of one block, at its beginning. -/
def oneBlock : FileId → OpenFile :=
  fun _ => ⟨true, true, .regular 0 512⟩

/-- `read(0, sz - 1, -1)` is not rejected and writes a whole block of the file,
beyond the end of the process. -/
theorem negative_count_escapes : signed ((caller 0xfff 0xffffffff).word 2) = -1 ∧
      (sysRead (caller 0xfff 0xffffffff) oneBlock ⟨[], [], false⟩).returned = some 512 ∧
      (0x1000 : UInt32) ∈ (sysRead (caller 0xfff 0xffffffff) oneBlock ⟨[], [], false⟩).touched ∧
      ¬ (0x1000 : UInt32) < (caller 0xfff 0xffffffff).sz := by
  decide +kernel

end UserBuffers

end Xv6Kthreads
