import Xv6Kthreads.UserSpace

/-!
# The system-call table

Each system call has a wrapper that fetches its own arguments, with the helper
and the position that its author has chosen, and then runs the kernel function
behind it.  The calling convention says what should arrive there: parameter `k`
is the word at `esp + 4 + 4 * k`, after the check that its type asks for.

Two wrappers do not always keep to the convention: one fetches the same word
twice, and one hands words to parameters of type `short`.
-/

namespace Xv6Kthreads

open FileSystem Option

namespace SystemCalls

/-- The system calls of `syscall.h`. -/
inductive Syscall where
  | fork
  | exit
  | wait
  | pipe
  | read
  | kill
  | exec
  | fstat
  | chdir
  | dup
  | getpid
  | sbrk
  | sleep
  | uptime
  | open
  | write
  | mknod
  | unlink
  | link
  | mkdir
  | close
  | kthreadCreate
  | kthreadId
  | kthreadExit
  | kthreadJoin
  | kthreadMutexAlloc
  | kthreadMutexDealloc
  | kthreadMutexLock
  | kthreadMutexUnlock
  | kthreadMutexYieldlock
  deriving DecidableEq, Repr

/-- The numbers `SYS_...`, which the stubs of `usys.S` put into `eax`. -/
def Syscall.number : Syscall → Nat
  | .fork => 1
  | .exit => 2
  | .wait => 3
  | .pipe => 4
  | .read => 5
  | .kill => 6
  | .exec => 7
  | .fstat => 8
  | .chdir => 9
  | .dup => 10
  | .getpid => 11
  | .sbrk => 12
  | .sleep => 13
  | .uptime => 14
  | .open => 15
  | .write => 16
  | .mknod => 17
  | .unlink => 18
  | .link => 19
  | .mkdir => 20
  | .close => 21
  | .kthreadCreate => 22
  | .kthreadId => 23
  | .kthreadExit => 24
  | .kthreadJoin => 25
  | .kthreadMutexAlloc => 26
  | .kthreadMutexDealloc => 27
  | .kthreadMutexLock => 28
  | .kthreadMutexUnlock => 29
  | .kthreadMutexYieldlock => 30

inductive Arg where
  | int (word : UInt32)
  | file (fd : Fd) (f : FileId)
  | ptr (addr : UInt32)
  | str (addr : UInt32)
  | argv (strings : List UInt32)
  deriving DecidableEq, Repr

/-- The kernel function runs with its arguments, or the call returns -1, perhaps
after an empty transaction. -/
inductive Outcome where
  | invoked (call : Syscall) (args : List Arg)
  | rejected (emptyTransaction : Bool)
  | unknown
  deriving DecidableEq, Repr

def plain (call : Syscall) (args : Option (List Arg)) : Outcome :=
  match args with
  | some args => .invoked call args
  | none => .rejected false

def logged (call : Syscall) (args : Option (List Arg)) : Outcome :=
  match args with
  | some args => .invoked call args
  | none => .rejected true

def sizeofStat : UInt32 := 20

/-- An `int` that is passed as a `short`. -/
def short (word : UInt32) : UInt32 :=
  word.toUInt16.toInt16.toInt32.toUInt32

section Wrappers

variable (user : UserSpace)

def sysKill : Outcome :=
  plain .kill do
    let pid ← user.argint 0
    return [.int pid]

def sysSbrk : Outcome :=
  plain .sbrk do
    let n ← user.argint 0
    return [.int n]

def sysSleep : Outcome :=
  plain .sleep do
    let n ← user.argint 0
    return [.int n]

def sysKthreadCreate : Outcome :=
  plain .kthreadCreate do
    let startFunc ← user.argint 0
    let stack ← user.argint 1
    let stackSize ← user.argint 2
    return [.int startFunc, .int stack, .int stackSize]

def sysKthreadJoin : Outcome :=
  plain .kthreadJoin do
    let threadId ← user.argint 0
    return [.int threadId]

def sysKthreadMutexDealloc : Outcome :=
  plain .kthreadMutexDealloc do
    let mutexId ← user.argint 0
    return [.int mutexId]

def sysKthreadMutexLock : Outcome :=
  plain .kthreadMutexLock do
    let mutexId ← user.argint 0
    return [.int mutexId]

def sysKthreadMutexUnlock : Outcome :=
  plain .kthreadMutexUnlock do
    let mutexId ← user.argint 0
    return [.int mutexId]

def sysKthreadMutexYieldlock : Outcome :=
  plain .kthreadMutexYieldlock do
    let mutexId1 ← user.argint 0
    let mutexId2 ← user.argint 0
    return [.int mutexId1, .int mutexId2]

def sysDup : Outcome :=
  plain .dup do
    let f ← user.argfd 0
    return [.file f.1 f.2]

def sysRead : Outcome :=
  plain .read do
    let f ← user.argfd 0
    let n ← user.argint 2
    let p ← user.argptr 1 n
    return [.file f.1 f.2, .ptr p, .int n]

def sysWrite : Outcome :=
  plain .write do
    let f ← user.argfd 0
    let n ← user.argint 2
    let p ← user.argptr 1 n
    return [.file f.1 f.2, .ptr p, .int n]

def sysClose : Outcome :=
  plain .close do
    let f ← user.argfd 0
    return [.file f.1 f.2]

def sysFstat : Outcome :=
  plain .fstat do
    let f ← user.argfd 0
    let st ← user.argptr 1 sizeofStat
    return [.file f.1 f.2, .ptr st]

def sysLink : Outcome :=
  plain .link do
    let old ← user.argstr 0
    let new ← user.argstr 1
    return [.str old, .str new]

def sysUnlink : Outcome :=
  plain .unlink do
    let path ← user.argstr 0
    return [.str path]

def sysOpen : Outcome :=
  plain .open do
    let path ← user.argstr 0
    let omode ← user.argint 1
    return [.str path, .int omode]

def sysMkdir : Outcome :=
  logged .mkdir do
    let path ← user.argstr 0
    return [.str path]

/-- `sys_mknod` calls `create`, which takes the numbers of the device as
`short`. -/
def sysMknod : Outcome :=
  logged .mknod do
    let path ← user.argstr 0
    let major ← user.argint 1
    let minor ← user.argint 2
    return [.str path, .int (short major), .int (short minor)]

def sysChdir : Outcome :=
  logged .chdir do
    let path ← user.argstr 0
    return [.str path]

/-- The loop of `sys_exec` over the array at `addr`; `left` entries of `argv`
are free. -/
def fetchArgv (addr : UInt32) : Nat → Option (List UInt32)
  | 0 => none
  | left + 1 => do
    let uarg ← user.fetchint addr
    if uarg = 0 then
      return []
    else
      let string ← user.fetchstr uarg
      let rest ← fetchArgv (addr + 4) left
      return string :: rest

def sysExec : Outcome :=
  plain .exec do
    let path ← user.argstr 0
    let uargv ← user.argint 1
    let argv ← fetchArgv user uargv MAXARG
    return [.str path, .argv argv]

def sysPipe : Outcome :=
  plain .pipe do
    let fd ← user.argptr 0 8
    return [.ptr fd]

def syscalls : Nat → Option Outcome
  | 1 => some (.invoked .fork [])
  | 2 => some (.invoked .exit [])
  | 3 => some (.invoked .wait [])
  | 4 => some (sysPipe user)
  | 5 => some (sysRead user)
  | 6 => some (sysKill user)
  | 7 => some (sysExec user)
  | 8 => some (sysFstat user)
  | 9 => some (sysChdir user)
  | 10 => some (sysDup user)
  | 11 => some (.invoked .getpid [])
  | 12 => some (sysSbrk user)
  | 13 => some (sysSleep user)
  | 14 => some (.invoked .uptime [])
  | 15 => some (sysOpen user)
  | 16 => some (sysWrite user)
  | 17 => some (sysMknod user)
  | 18 => some (sysUnlink user)
  | 19 => some (sysLink user)
  | 20 => some (sysMkdir user)
  | 21 => some (sysClose user)
  | 22 => some (sysKthreadCreate user)
  | 23 => some (.invoked .kthreadId [])
  | 24 => some (.invoked .kthreadExit [])
  | 25 => some (sysKthreadJoin user)
  | 26 => some (.invoked .kthreadMutexAlloc [])
  | 27 => some (sysKthreadMutexDealloc user)
  | 28 => some (sysKthreadMutexLock user)
  | 29 => some (sysKthreadMutexUnlock user)
  | 30 => some (sysKthreadMutexYieldlock user)
  | _ => none

def syscall (eax : UInt32) : Outcome :=
  if 0 < signed eax ∧ signed eax < 31 then
    match syscalls user (signed eax).toNat with
    | some outcome => outcome
    | none => .unknown
  else
    .unknown

end Wrappers

/-! ## The calling convention -/

/-- The types of parameters, as far as the kernel checks them. -/
inductive Param where
  | int
  | descriptor
  | string
  /-- A pointer to an object of fixed size. -/
  | object (size : UInt32)
  /-- A pointer to as many bytes as parameter `count` says. -/
  | buffer (count : Nat)
  | strings

def Syscall.declared : Syscall → List Param
  | .fork | .exit | .wait | .getpid | .uptime => []
  | .kthreadId | .kthreadExit | .kthreadMutexAlloc => []
  | .pipe => [.object 8]
  | .read | .write => [.descriptor, .buffer 2, .int]
  | .kill | .sbrk | .sleep => [.int]
  | .exec => [.string, .strings]
  | .fstat => [.descriptor, .object sizeofStat]
  | .chdir | .unlink | .mkdir => [.string]
  | .dup | .close => [.descriptor]
  | .open => [.string, .int]
  | .mknod => [.string, .int, .int]
  | .link => [.string, .string]
  | .kthreadCreate => [.int, .int, .int]
  | .kthreadJoin | .kthreadMutexDealloc => [.int]
  | .kthreadMutexLock | .kthreadMutexUnlock => [.int]
  | .kthreadMutexYieldlock => [.int, .int]

variable (user : UserSpace)

/-- The argument that word `k` stands for, if it passes the check of its
type. -/
def Param.check (k : Nat) : Param → Option Arg
  | .int => some (.int (user.word k))
  | .descriptor => (user.checkfd (user.word k)).map fun f => .file f.1 f.2
  | .string => (user.fetchstr (user.word k)).map .str
  | .object size => (user.checkptr (user.word k) size).map .ptr
  | .buffer count => (user.checkptr (user.word k) (user.word count)).map .ptr
  | .strings => (fetchArgv user (user.word k) MAXARG).map .argv

/-- The words of all parameters from `k` on are in the process and pass their
checks; word `k` becomes argument `k`. -/
def decode (user : UserSpace) (k : Nat) : List Param → Option (List Arg)
  | [] => some []
  | param :: params =>
    if user.Inside k then
      match param.check user k, decode user (k + 1) params with
      | some arg, some args => some (arg :: args)
      | _, _ => none
    else
      none

theorem decode_eq_some {user : UserSpace} {params : List Param} {k : Nat}
    {args : List Arg} (sameLength : args.length = params.length)
    (inOrder : ∀ index param, params[index]? = some param → user.Inside (k + index) ∧
        param.check user (k + index) = args[index]?) :
    decode user k params = some args := by
  induction params generalizing k args with
  | nil =>
    rw [List.length_eq_zero_iff.mp sameLength]
    rfl
  | cons param params ih =>
    cases args with
    | nil => simp at sameLength
    | cons arg args =>
      obtain ⟨inside, checked⟩ := inOrder 0 param rfl
      have rest : decode user (k + 1) params = some args := by
        apply ih (by simpa using sameLength)
        intro index param isAt
        have later := inOrder (index + 1) param isAt
        rwa [show k + 1 + index = k + (index + 1) by omega]
      rw [Nat.add_zero] at inside checked
      simp only [decode, if_pos inside, checked, rest, List.getElem?_cons_zero]

theorem decode_eq_none {user : UserSpace} {params : List Param} {k index : Nat}
    (bounded : index < params.length) (outside : ¬ user.Inside (k + index)) :
    decode user k params = none := by
  induction params generalizing k index with
  | nil => simp at bounded
  | cons param params ih =>
    rw [decode]
    split
    next inside =>
      cases index with
      | zero => exact absurd inside outside
      | succ index =>
        rw [Nat.add_comm index, ← Nat.add_assoc] at outside
        rw [ih (by simpa using bounded) outside]
        cases param.check user k <;> rfl
    next => rfl

/-- Word `k` as an argument of the given type, if it is in the process and
passes its check. -/
def fetched (k : Nat) (param : Param) : Option Arg :=
  if user.Inside k then param.check user k else none

theorem decode_nil (k : Nat) : decode user k [] = some [] :=
  rfl

theorem decode_cons (user : UserSpace) (k : Nat) (param : Param) (params : List Param) :
    decode user k (param :: params) = do
      let arg ← fetched user k param
      let args ← decode user (k + 1) params
      return arg :: args := by
  rw [decode, fetched]
  split
  · cases param.check user k with
    | none => rfl
    | some arg => cases decode user (k + 1) params <;> rfl
  · rfl

section Fetching

variable (user : UserSpace) (k : Nat)

theorem argint_fetched : fetched user k .int = (user.argint k).map .int := by
  rw [fetched, UserSpace.argint_eq]
  split <;> rfl

theorem argfd_fetched : fetched user k .descriptor = (user.argfd k).map fun f => .file f.1 f.2 := by
  rw [fetched, UserSpace.argfd, UserSpace.argint_eq]
  by_cases inside : user.Inside k
  · rw [if_pos inside, if_pos inside, bind_eq_bind, bind_some]
    rfl
  · rw [if_neg inside, if_neg inside, bind_eq_bind, bind_none]
    rfl

theorem argstr_fetched : fetched user k .string = (user.argstr k).map .str := by
  rw [fetched, UserSpace.argstr, UserSpace.argint_eq]
  split <;> rfl

theorem argptr_fetched (size : UInt32) :
    fetched user k (.object size) = (user.argptr k size).map .ptr := by
  rw [fetched, UserSpace.argptr, UserSpace.argint_eq]
  split <;> rfl

theorem buffer_fetched {count : Nat} {n : UInt32} (isCount : user.argint count = some n) :
    fetched user k (.buffer count) = (user.argptr k n).map .ptr := by
  have isWord : user.word count = n := by
    rw [UserSpace.argint_eq] at isCount
    split at isCount
    · exact some.inj isCount
    · cases isCount
  rw [← argptr_fetched, fetched, fetched, Param.check, Param.check, isWord]

end Fetching

section Shapes

variable {α β γ : Type} {user : UserSpace}
variable {first : Option α} {second : Option β} {third : Option γ}
variable {firstArg : α → Arg} {secondArg : β → Arg} {thirdArg : γ → Arg}
variable {firstParam secondParam thirdParam : Param}

section

variable (isFirst : fetched user 0 firstParam = first.map firstArg)
include isFirst

theorem decode_one : (do
      let a ← first
      return [firstArg a]) = decode user 0 [firstParam] := by
  rw [decode_cons, decode_nil, isFirst]
  cases first <;> rfl

theorem decode_two (isSecond : fetched user 1 secondParam = second.map secondArg) : (do
      let a ← first
      let b ← second
      return [firstArg a, secondArg b]) =
      decode user 0 [firstParam, secondParam] := by
  rw [decode_cons, decode_cons, decode_nil, isFirst, isSecond]
  cases first with
  | none => rfl
  | some a => cases second <;> rfl

theorem decode_three (isSecond : fetched user 1 secondParam = second.map secondArg)
    (isThird : fetched user 2 thirdParam = third.map thirdArg) :
    (do
      let a ← first
      let b ← second
      let c ← third
      return [firstArg a, secondArg b, thirdArg c]) =
      decode user 0 [firstParam, secondParam, thirdParam] := by
  rw [decode_cons, decode_cons, decode_cons, decode_nil, isFirst, isSecond, isThird]
  cases first with
  | none => rfl
  | some a =>
    cases second with
    | none => rfl
    | some b => cases third <;> rfl

end

/-- The wrappers of `read` and `write` fetch the count before the pointer. -/
theorem decode_transfer (user : UserSpace) : (do
      let f ← user.argfd 0
      let n ← user.argint 2
      let p ← user.argptr 1 n
      return [Arg.file f.1 f.2, .ptr p, .int n]) =
      decode user 0 [.descriptor, .buffer 2, .int] := by
  simp only [decode_cons, decode_nil, argfd_fetched, argint_fetched]
  cases user.argfd 0 with
  | none => rfl
  | some f =>
    cases count : user.argint 2 with
    | none => cases fetched user 1 (.buffer 2) <;> rfl
    | some n =>
      simp only [bind_eq_bind, bind_some, buffer_fetched user 1 count]
      cases user.argptr 1 n <;> rfl

/-- `sys_exec` fetches the words of the array that its second argument points
to. -/
theorem decode_exec (user : UserSpace) : (do
      let path ← user.argstr 0
      let uargv ← user.argint 1
      let argv ← fetchArgv user uargv MAXARG
      return [Arg.str path, .argv argv]) =
      decode user 0 [.string, .strings] := by
  have isArgv : fetched user 1 .strings = (do
      let uargv ← user.argint 1
      fetchArgv user uargv MAXARG).map Arg.argv := by
    rw [fetched, UserSpace.argint_eq]
    by_cases inside : user.Inside 1
    · rw [if_pos inside, if_pos inside, bind_eq_bind, bind_some]
      rfl
    · rw [if_neg inside, if_neg inside, bind_eq_bind, bind_none]
      rfl
  rw [← decode_two (argstr_fetched user 0) isArgv]
  cases user.argstr 0 with
  | none => rfl
  | some path => cases user.argint 1 <;> rfl

end Shapes

/-- The outcome that the calling convention asks for.  The three wrappers that
begin a transaction before they look at their arguments may do so. -/
def convention (call : Syscall) : Outcome :=
  if call = .mkdir ∨ call = .mknod ∨ call = .chdir then
    logged call (decode user 0 call.declared)
  else
    plain call (decode user 0 call.declared)

theorem syscall_number (call : Syscall) : some (syscall user (UInt32.ofNat call.number)) =
      syscalls user call.number := by
  cases call <;> rfl

/-- The words of a call of `kthread_mutex_yieldlock` that its wrapper passes on
as they are. -/
def YieldsInOrder : Prop :=
  user.Inside 0 → user.Inside 1 ∧ user.word 1 = user.word 0

/-- The words of a call of `mknod` that its wrapper passes on as they are. -/
def NumbersFit : Prop :=
  (user.argstr 0).isSome → user.Inside 1 → user.Inside 2 →
    short (user.word 1) = user.word 1 ∧ short (user.word 2) = user.word 2

theorem yieldlock_eq_convention (inOrder : YieldsInOrder user) :
    sysKthreadMutexYieldlock user = convention user .kthreadMutexYieldlock := by
  have same : user.argint 0 = (user.argint 0).bind fun _ => user.argint 1 := by
    rw [UserSpace.argint_eq, UserSpace.argint_eq]
    by_cases inside : user.Inside 0
    · obtain ⟨second, equal⟩ := inOrder inside
      rw [if_pos inside, if_pos second, equal, bind_some]
    · rw [if_neg inside, bind_none]
  have decoded := decode_two (argint_fetched user 0) (argint_fetched user 1)
  rw [convention, if_neg (by decide)]
  refine congrArg _ (Eq.trans ?_ decoded)
  cases first : user.argint 0 with
  | none => rfl
  | some word =>
    rw [first, bind_some] at same
    rw [← same]

theorem mknod_eq_convention (fit : NumbersFit user) :
    sysMknod user = convention user .mknod := by
  have decoded := decode_three (argstr_fetched user 0) (argint_fetched user 1)
    (argint_fetched user 2)
  rw [convention, if_pos (by decide)]
  refine congrArg _ (Eq.trans ?_ decoded)
  rw [UserSpace.argint_eq, UserSpace.argint_eq]
  cases path : user.argstr 0 with
  | none => rfl
  | some addr =>
    by_cases major : user.Inside 1
    · by_cases minor : user.Inside 2
      · obtain ⟨isMajor, isMinor⟩ := fit (by rw [path]; rfl) major minor
        simp only [if_pos major, if_pos minor, bind_eq_bind, bind_some, isMajor, isMinor]
      · rw [if_neg minor]
        rfl
    · rw [if_neg major]
      rfl

theorem syscall_eq_convention (call : Syscall)
    (yields : call = .kthreadMutexYieldlock → YieldsInOrder user)
    (numbers : call = .mknod → NumbersFit user) :
    syscall user (UInt32.ofNat call.number) = convention user call := by
  apply some.inj
  rw [syscall_number]
  have oneInt := decode_one (argint_fetched user 0)
  have oneString := decode_one (argstr_fetched user 0)
  have oneFile := decode_one (argfd_fetched user 0)
  cases call with
  | fork | exit | wait | getpid | uptime | kthreadId | kthreadExit | kthreadMutexAlloc => rfl
  | pipe => exact congrArg _ (congrArg _ (decode_one (argptr_fetched user 0 8)))
  | read | write => exact congrArg _ (congrArg _ (decode_transfer user))
  | kill | sbrk | sleep | kthreadJoin | kthreadMutexDealloc => exact congrArg _ (congrArg _ oneInt)
  | exec => exact congrArg _ (congrArg _ (decode_exec user))
  | fstat =>
    exact congrArg _ (congrArg _ (decode_two (argfd_fetched user 0)
      (argptr_fetched user 1 sizeofStat)))
  | chdir | unlink | mkdir => exact congrArg _ (congrArg _ oneString)
  | dup | close => exact congrArg _ (congrArg _ oneFile)
  | «open» =>
    exact congrArg _ (congrArg _ (decode_two (argstr_fetched user 0) (argint_fetched user 1)))
  | mknod => exact congrArg _ (mknod_eq_convention user (numbers rfl))
  | link =>
    exact congrArg _ (congrArg _ (decode_two (argstr_fetched user 0) (argstr_fetched user 1)))
  | kthreadCreate =>
    exact congrArg _ (congrArg _ (decode_three (argint_fetched user 0)
      (argint_fetched user 1) (argint_fetched user 2)))
  | kthreadMutexLock | kthreadMutexUnlock => exact congrArg _ (congrArg _ oneInt)
  | kthreadMutexYieldlock => exact congrArg _ (yieldlock_eq_convention user (yields rfl))

/-- If every argument word lies in the process and passes its check, the kernel
function runs with exactly these arguments; if one lies outside, the call
returns -1. -/
def Arrive (call : Syscall) : Prop :=
  (∀ args : List Arg, args.length = call.declared.length →
    (∀ k param, call.declared[k]? = some param → user.Inside k ∧ param.check user k = args[k]?) →
    syscall user (UInt32.ofNat call.number) = .invoked call args) ∧
  ((∃ k < call.declared.length, ¬ user.Inside k) →
    ∃ emptyTransaction, syscall user (UInt32.ofNat call.number) = .rejected emptyTransaction)

theorem arrive_of_convention {call : Syscall}
    (isConvention : syscall user (UInt32.ofNat call.number) = convention user call) :
    Arrive user call := by
  rw [Arrive, isConvention, convention]
  constructor
  · intro args sameLength inOrder
    rw [decode_eq_some sameLength (by simpa using inOrder)]
    split <;> rfl
  · rintro ⟨k, bounded, outside⟩
    rw [decode_eq_none bounded (by simpa using outside)]
    split
    · exact ⟨true, rfl⟩
    · exact ⟨false, rfl⟩

theorem yieldsInOrder_of_arrive (arrive : Arrive user .kthreadMutexYieldlock) :
    YieldsInOrder user := by
  intro first
  have answer : syscall user (UInt32.ofNat Syscall.kthreadMutexYieldlock.number) =
      .invoked .kthreadMutexYieldlock [.int (user.word 0), .int (user.word 0)] := by
    change sysKthreadMutexYieldlock user = _
    rw [sysKthreadMutexYieldlock, UserSpace.argint_eq, if_pos first]
    rfl
  by_cases second : user.Inside 1
  · refine ⟨second, ?_⟩
    have asked := arrive.1 [.int (user.word 0), .int (user.word 1)] rfl ?_
    · have same := answer.symm.trans asked
      simp only [Outcome.invoked.injEq, List.cons.injEq, Arg.int.injEq] at same
      exact same.2.2.1.symm
    · rintro (_ | _ | k) param isAt <;> cases isAt
      · exact ⟨first, rfl⟩
      · exact ⟨second, rfl⟩
  · obtain ⟨emptyTransaction, rejected⟩ := arrive.2 ⟨1, by decide, second⟩
    exact nomatch answer.symm.trans rejected

theorem numbersFit_of_arrive (arrive : Arrive user .mknod) : NumbersFit user := by
  intro isPath major minor
  obtain ⟨path, isPath⟩ := isSome_iff_exists.mp isPath
  have answer : syscall user (UInt32.ofNat Syscall.mknod.number) =
      .invoked .mknod [.str path, .int (short (user.word 1)), .int (short (user.word 2))] := by
    change sysMknod user = _
    rw [sysMknod, isPath, UserSpace.argint_eq, UserSpace.argint_eq, if_pos major, if_pos minor]
    rfl
  have isString : fetched user 0 .string = some (.str path) := by
    rw [argstr_fetched, isPath]
    rfl
  have first : user.Inside 0 ∧ Param.string.check user 0 = some (.str path) := by
    rw [fetched] at isString
    split at isString
    · exact ⟨‹_›, isString⟩
    · cases isString
  have asked := arrive.1 [.str path, .int (user.word 1), .int (user.word 2)] rfl ?_
  · have same := answer.symm.trans asked
    simp only [Outcome.invoked.injEq, List.cons.injEq, Arg.int.injEq] at same
    exact ⟨same.2.2.1, same.2.2.2.1⟩
  · rintro (_ | _ | _ | k) param isAt <;> cases isAt
    · exact first
    · exact ⟨major, rfl⟩
    · exact ⟨minor, rfl⟩

/-- The arguments of every call arrive in order, but for those of
`kthread_mutex_yieldlock` with two different words or the second one outside,
and of `mknod` with numbers that are no `short`. -/
theorem arguments_arrive_iff (call : Syscall) : Arrive user call ↔
    (call = .kthreadMutexYieldlock → user.Inside 0 →
      user.Inside 1 ∧ user.word 1 = user.word 0) ∧
    (call = .mknod → (user.argstr 0).isSome → user.Inside 1 → user.Inside 2 →
      short (user.word 1) = user.word 1 ∧ short (user.word 2) = user.word 2) := by
  constructor
  · intro arrive
    refine ⟨?_, ?_⟩
    · rintro rfl
      exact yieldsInOrder_of_arrive user arrive
    · rintro rfl
      exact numbersFit_of_arrive user arrive
  · rintro ⟨yields, numbers⟩
    exact arrive_of_convention user (syscall_eq_convention user call yields numbers)

/-- A process of one page whose stack holds the words 1, 2 and 3 as
arguments. -/
def onePage : UserSpace where
  sz := 0x1000
  sz_le := by decide
  esp := 0x100
  memory := fun addr =>
    if addr = 0x104 then 1
    else if addr = 0x108 then 2
    else if addr = 0x10c then 3
    else 0
  ofile := fun _ => none

/-- `kthread_mutex_yieldlock(1, 2)`: both words lie in the process, and the
kernel function runs with the identifiers 1 and 1. -/
theorem yieldlock_repeats_argument :
    (∀ k < Syscall.kthreadMutexYieldlock.declared.length, onePage.Inside k) ∧
      onePage.word 0 = 1 ∧ onePage.word 1 = 2 ∧ syscall onePage
            (UInt32.ofNat Syscall.kthreadMutexYieldlock.number) =
          .invoked .kthreadMutexYieldlock [.int 1, .int 1] := by
  decide +kernel

end SystemCalls

end Xv6Kthreads
