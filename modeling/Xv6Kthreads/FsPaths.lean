import Mathlib.Data.List.TakeWhile
import Xv6Kthreads.FsState

/-!
# Directories and paths

The rest of `fs.c`: the entries of directories, and `namex`, which walks along a
path.  A thread can be preempted between any two sections; one that uses an
inode to which nothing refers any longer stops.
-/

namespace Xv6Kthreads

namespace FileSystem

open Sections Function Act
open Prog (atomic)

abbrev Path := List UInt8

def slash : UInt8 := 47

def dot : UInt8 := 46

/-- `skipelem`: the next element, cut to `DIRSIZ` characters, and the path
behind it. -/
def skipelem (path : Path) : Option (Path × Path) :=
  match path.dropWhile (· == slash) with
  | [] => none
  | first :: rest =>
    some (((first :: rest).takeWhile (· != slash)).take DIRSIZ,
      ((first :: rest).dropWhile (· != slash)).dropWhile (· == slash))

section Components

open List

/-- The pieces of a path between its slashes, cut to `DIRSIZ` characters. -/
def components (path : Path) : List Path :=
  ((path.splitOnP (· == slash)).filter (· ≠ [])).map (·.take DIRSIZ)

theorem components_dropWhile (path : Path) :
    components (path.dropWhile (· == slash)) = components path := by
  induction path with
  | nil => rfl
  | cons c path ih =>
    by_cases isSlash : c = slash
    · simpa [isSlash, components, splitOnP_cons_eq_if_modifyHead] using ih
    · simp [isSlash]

/-- An element that begins with `c`, and the slash or the end behind it. -/
theorem components_element {c : UInt8} {path : Path} (notSlash : c ≠ slash) :
    components (c :: path) = ((c :: path).takeWhile (· != slash)).take DIRSIZ ::
      components ((c :: path).dropWhile (· != slash)) := by
  have begins : (c :: path).takeWhile (· != slash) ≠ [] := by simp [notSlash]
  have plain : ∀ x ∈ (c :: path).takeWhile (· != slash), (x == slash) = false :=
    fun x member => by simpa using all_eq_true.mp all_takeWhile x member
  have ends := head?_dropWhile_not (· != slash) (c :: path)
  conv_lhs => rw [← takeWhile_append_dropWhile (p := (· != slash)) (l := c :: path)]
  cases rest : (c :: path).dropWhile (· != slash) with
  | nil => simp only [components, append_nil, splitOnP_eq_singleton plain]; simp [begins]
  | cons s rest =>
    have isSlash : (s == slash) = true := by simpa [rest] using ends
    simp only [components, splitOnP_append_cons_of_forall_mem plain s isSlash,
      splitOnP_cons_eq_if_modifyHead, isSlash]
    simp [begins]

/-- `skipelem` fails exactly on the paths without components. -/
theorem components_of_skipelem_none {path : Path} (isEnd : skipelem path = none) :
    components path = [] := by
  rw [skipelem] at isEnd
  split at isEnd
  next skipped => rw [← components_dropWhile, skipped]; rfl
  next => cases isEnd

/-- `skipelem` takes the first component, and the path that it leaves is shorter
and empty exactly if no component remains. -/
theorem components_of_skipelem {path name rest : Path} (found : skipelem path = some (name, rest)) :
    components path = name :: components rest ∧ rest.length < path.length ∧
      rest.isEmpty = (components rest).isEmpty := by
  rw [skipelem] at found
  split at found
  next => cases found
  next c left skipped =>
    cases found
    have notSlash : c ≠ slash := by
      simpa [skipped] using head?_dropWhile_not (· == slash) path
    refine ⟨?_, ?_, ?_⟩
    · rw [← components_dropWhile, skipped, components_element notSlash, ← components_dropWhile]
    · -- The element is not empty.
      have shorter : (c :: left).length ≤ path.length := skipped ▸ length_dropWhile_le _ path
      rw [dropWhile_cons_of_pos (by simpa using notSlash)]
      have behind := (length_dropWhile_le (· == slash) _).trans
        (length_dropWhile_le (· != slash) left)
      exact behind.trans_lt shorter
    · generalize (c :: left).dropWhile (· != slash) = tail
      cases remaining : tail.dropWhile (· == slash) with
      | nil => rfl
      | cons first others =>
        have begins : first ≠ slash := by
          simpa [remaining] using head?_dropWhile_not (· == slash) tail
        rw [components_element begins]
        rfl

end Components

section Directories

variable [sb : Superblock] (dp : Entry)

/-- `readi(dp, &de, off, sizeof(de))`, with the check of its result. -/
def readDirent (off : Nat) (message : Panic) : Section Bytes := do
  let (count, de) ← readi dp off direntSize
  if count = direntSize then pure de else panic message

/-- The loop of `dirlookup` over `count` entries from `off` on: the number and
the offset of the entry with the name. -/
def dirlookupLoop (dp : Entry) (name : Path) :
    (count : Nat) → (off : Nat) → Section (Option (Nat × Nat))
  | 0, _ => pure none
  | count + 1, off => do
    let size ← read fun fs => (fs.inode dp).copy.size
    if off < size then do
      let de ← readDirent dp off .dirlinkRead
      if direntInum de ≠ 0 ∧ namecmp (cString name) (direntName de) = 0 then
        pure (some (direntInum de, off))
      else
        dirlookupLoop dp name count (off + direntSize)
    else
      pure none

variable (name : Path)

def dirlookupScan : Section (Option (Nat × Nat)) := do
  let inode ← read fun fs => (fs.inode dp).copy
  if inode.type = .dir then
    dirlookupLoop dp name (inode.size / direntSize + 1) 0
  else
    panic .dirlookupNotDir

/-- `dirlookup`: the inode and the offset of its entry. -/
def dirlookup : Code (Option (Entry × Nat)) := do
  let found ← atomic (dirlookupScan dp name)
  match found with
  | none => pure none
  | some (inum, off) => do
    let ip ← atomic (iget inum)
    pure (some (ip, off))

/-- The second loop of `dirlink`: the offset of an empty entry, or the end of
the directory. -/
def emptyDirent (dp : Entry) : (count : Nat) → (off : Nat) → Section Nat
  | 0, off => pure off
  | count + 1, off => do
    let size ← read fun fs => (fs.inode dp).copy.size
    if off < size then do
      let de ← readDirent dp off .dirlinkRead
      if direntInum de = 0 then pure off
      else emptyDirent dp count (off + direntSize)
    else
      pure off

def dirlinkWrite (inum : Nat) : Section Unit := do
  let size ← read fun fs => (fs.inode dp).copy.size
  let off ← emptyDirent dp (size / direntSize + 1) 0
  let written ← writei dp (mkDirent inum (cString name)) off direntSize
  if written = direntSize then pure () else panic .dirlink

def dirlink (inum : Nat) : Code Int := do
  let found ← dirlookup dp name
  match found with
  | some (ip, _) => do
    iput ip
    pure (-1)
  | none => do
    atomic (dirlinkWrite dp name inum)
    pure 0

def inodeType (ip : Entry) : Code InodeType :=
  atomic (read fun fs => (fs.inode ip).copy.type)

/-- `namex` behind its loop. -/
def namexEnd (nameiparent : Bool) (ip : Entry) : Code (Option (Entry × Path)) :=
  if nameiparent then do
    iput ip
    pure none
  else
    pure (some (ip, []))

/-- The loop of `namex`: the inode and, for `nameiparent`, the last element.  The
length of the path is enough fuel. -/
def namexLoop (nameiparent : Bool) :
    (fuel : Nat) → Entry → Path → Code (Option (Entry × Path))
  | 0, ip, _ => namexEnd nameiparent ip
  | fuel + 1, ip, path =>
    match skipelem path with
    | none => namexEnd nameiparent ip
    | some (name, path) => do
      ilock ip
      let type ← inodeType ip
      if type ≠ .dir then do
        iunlockput ip
        pure none
      else if nameiparent && path.isEmpty then do
        atomic (iunlock ip)
        pure (some (ip, name))
      else do
        let found ← dirlookup ip name
        iunlockput ip
        match found with
        | none => pure none
        | some (next, _) => namexLoop nameiparent fuel next path

/-- What `namex` does with the components of a path: each one but the last of
`nameiparent` is looked up in the directory that the ones before it lead to. -/
def walk (nameiparent : Bool) : Entry → List Path → Code (Option (Entry × Path))
  | ip, [] => namexEnd nameiparent ip
  | ip, name :: rest => do
    ilock ip
    let type ← inodeType ip
    if type ≠ .dir then do
      iunlockput ip
      pure none
    else if nameiparent && rest.isEmpty then do
      atomic (iunlock ip)
      pure (some (ip, name))
    else do
      let found ← dirlookup ip name
      iunlockput ip
      match found with
      | none => pure none
      | some (next, _) => walk nameiparent next rest

theorem namexLoop_eq_walk {parent : Bool} {fuel : Nat} {ip : Entry} {path : Path}
    (enough : path.length ≤ fuel) :
    namexLoop parent fuel ip path = walk parent ip (components path) := by
  induction fuel generalizing ip path with
  | zero => rw [List.length_eq_zero_iff.mp (Nat.le_zero.mp enough)]; rfl
  | succ fuel ih =>
    rw [namexLoop]
    cases found : skipelem path with
    | none =>
      rw [components_of_skipelem_none found]
      rfl
    | some element =>
      obtain ⟨isComponents, shorter, ends⟩ := components_of_skipelem found
      have next : ∀ ip, namexLoop parent fuel ip element.2 =
          walk parent ip (components element.2) := fun ip => ih (by omega)
      simp only [isComponents, walk, ends, next]

variable (process : ProcId)

def dupCwd : Section Entry := do
  let cwd ← read fun fs => fs.cwd process
  match cwd with
  | none => panic .nullPointer
  | some ip => do
    let ref ← read fun fs => (fs.inode ip).ref
    if ref < 1 then
      stop .dangling
    else do
      idup ip
      pure ip

def namex (path : Path) (nameiparent : Bool) : Code (Option (Entry × Path)) := do
  let start ←
    if path.head? = some slash then atomic (iget ROOTINO)
    else atomic (dupCwd process)
  namexLoop nameiparent path.length start path

def namei (path : Path) : Code (Option Entry) := do
  let found ← namex process path false
  pure (found.map Prod.fst)

def nameiparent (path : Path) : Code (Option (Entry × Path)) :=
  namex process path true

/-- `namex` walks along the components of the path. -/
theorem namex_walks_components (path : Path) (parent : Bool) :
    namex process path parent = (do
      let start ←
        if path.head? = some slash then atomic (iget ROOTINO) else atomic (dupCwd process)
      walk parent start (components path)) := by
  simp only [namex, namexLoop_eq_walk le_rfl]

end Directories

end FileSystem

end Xv6Kthreads
