import Rhoudveine.Fs.Ramfs

/-!
# The virtual file system

The functions of `vfs.c`.  As for ramfs, a result `none` is a crash, here a
dereference of a null pointer.
-/

namespace Rhoudveine.Fs
open Search

variable (answers : ℕ → UInt64)

/-! ## Paths -/

/-- The index of the last slash. -/
def lastSlash : Str → Option ℕ
  | [] => none
  | c :: p =>
    match lastSlash p with
    | some i => some (i + 1)
    | none => if c = slash then some 0 else none

def vfsBasename (path : Str) : Str :=
  match lastSlash path with
  | some i => path.drop (i + 1)
  | none => path

/-- `vfs_dirname` with the buffer of 256 bytes its callers pass. -/
def vfsDirname (path : Str) : Str :=
  match lastSlash path with
  | none => str "."
  | some i =>
    let len := if i = 0 then 1 else i
    path.take (if len ≥ 256 then 255 else len)

/-- At most `n` bytes up to the next slash, and the rest. -/
def takeComponent : (n : ℕ) → Str → Str × Str
  | 0, p => ([], p)
  | _ + 1, [] => ([], [])
  | n + 1, c :: p =>
    if c = slash then ([], c :: p)
    else ((c :: (takeComponent n p).1), (takeComponent n p).2)

def skipSlash : Str → Str
  | [] => []
  | c :: p => if c = slash then p else c :: p

/-- The outcomes of `vfs_resolve_path`. -/
inductive Resolved
  | node (n : ℕ)
  | null
  | crash
  deriving DecidableEq, Repr

/-- The pointer a lookup ends with. -/
def Resolved.ofPointer : Option ℕ → Resolved
  | some n => .node n
  | none => .null

/-- The node that replaces `next` on the way: the root of its mount, if it has one. -/
def followMount (s : Vfs) (next : ℕ) : Option ℕ :=
  let n := s.ramfsNodePool next
  if n.flags &&& vfsMountpoint ≠ 0 then
    match n.mount with
    | some mp => (s.gMounts mp).root
    | none => some next
  else some next

/-- The loop of `vfs_resolve_path`.  Every round takes at least one byte off the path, so
its length bounds the rounds. -/
def resolveLoop (s : Vfs) : (rounds : ℕ) → (current : Option ℕ) → Str → Resolved
  | _, current, [] => .ofPointer current
  | 0, _, _ :: _ => .null
  | rounds + 1, current, c :: p =>
    let component := (takeComponent 255 (c :: p)).1
    let p := skipSlash (takeComponent 255 (c :: p)).2
    if component = [] then resolveLoop s rounds current p
    else
      match current with
      | none => .crash
      | some current =>
        match (s.ramfsNodePool current).ops with
        | none => .null
        | some .ramfs =>
          match ramfsFinddir s current component with
          | none => .null
          | some next => resolveLoop s rounds (followMount s next) p

def vfsResolvePath (s : Vfs) (path : Str) : Resolved :=
  match s.gVfsRoot, path with
  | none, _ => .null
  | some _, [] => .null
  | some root, c :: p =>
    if c ≠ slash then .null
    else if p = [] then .node root
    else resolveLoop s p.length (some root) p

/-! ## Mounts -/

def findFsType (s : Vfs) (name : Str) : Option FilesystemType :=
  s.gFsTypes.find? fun t => t.name = name

/-- Make `node` a mount point of the mount table entry `mp`. -/
def linkMount (s : Vfs) (node mp : ℕ) : Vfs :=
  let n := s.ramfsNodePool node
  s.setNode node { n with flags := n.flags ||| vfsMountpoint, mount := some mp }

def vfsMount (s : Vfs) (path fstype : Str) : Option (ℤ × Vfs) :=
  if s.gMountCount ≥ maxMounts then some (-1, s)
  else
    match findFsType s fstype with
    | none => some (-1, s)
    | some fs =>
      let mp := s.gMountCount
      let s := s.setMount mp { path := path.take 255, root := none, refcount := 0 }
      match (match fs.kind with | .ramfs => ramfsMountOp s mp) with
      | (r, s) =>
        if r ≠ 0 then some (-1, s)
        else if path = [slash] then
          match (s.gMounts mp).root with
          | none => none
          | some root =>
            let s := linkMount { s with gVfsRoot := some root } root mp
            some (0, { s with gMountCount := mp + 1 })
        else
          match vfsResolvePath s path with
          | .crash => none
          | .null => some (-1, s)
          | .node mountNode =>
            if ¬ (s.ramfsNodePool mountNode).isDir then some (-1, s)
            else some (0, { linkMount s mountNode mp with gMountCount := mp + 1 })

/-- The table after entry `i` is removed and the later ones are shifted down. -/
def shiftMounts (mounts : ℕ → Mount) (i count : ℕ) : ℕ → Mount :=
  fun j => if i ≤ j ∧ j < count - 1 then mounts (j + 1) else mounts j

/-- The first used entry that names `path`. -/
def findMount (s : Vfs) (path : Str) : Option ℕ :=
  firstSome (fun i => if (s.gMounts i).path = path then some i else none) s.gMountCount 0

def vfsUnmount (s : Vfs) (path : Str) : ℤ × Vfs :=
  match findMount s path with
  | none => (-1, s)
  | some i =>
    if (s.gMounts i).refcount > 0 then (-1, s)
    else
      (0, { s with
        gMounts := shiftMounts s.gMounts i s.gMountCount
        gMountCount := s.gMountCount - 1 })

/-! ## Creating files and directories -/

/-- The common body of `vfs_create` and `vfs_mkdir`: `op` is the parent's operation. -/
def createAt (op : Vfs → ℕ → Str → ℤ × Vfs) (s : Vfs) (path : Str) : Option (ℤ × Vfs) :=
  match vfsResolvePath s (vfsDirname path) with
  | .crash => none
  | .null => some (-1, s)
  | .node parent =>
    match (s.ramfsNodePool parent).ops with
    | none => some (-1, s)
    | some .ramfs => some (op s parent (vfsBasename path))

def vfsCreate : Vfs → (path : Str) → Option (ℤ × Vfs) :=
  createAt fun s parent name => ramfsCreate s parent name vfsFile

def vfsMkdir : Vfs → (path : Str) → Option (ℤ × Vfs) :=
  createAt ramfsMkdirOp

/-! ## File descriptors -/

/-- The entry of a live descriptor: the check at the head of every descriptor call. -/
def liveFd (s : Vfs) (fd : ℤ) : Option (ℕ × FileDescriptor) :=
  if fd < 0 ∨ fd ≥ maxFds ∨ (s.gFds fd.toNat).refcount = 0 then none
  else some (fd.toNat, s.gFds fd.toNat)

/-- The first free descriptor from 3 on. -/
def freeFd (s : Vfs) : Option ℕ :=
  firstSome (fun i => if (s.gFds i).refcount = 0 then some i else none) (maxFds - 3) 3

/-- The part of `vfs_open` after the node is found. -/
def openNode (s : Vfs) (node : ℕ) (flags : UInt32) : ℤ × Vfs :=
  match freeFd s with
  | none => (-1, s)
  | some fd =>
    let offset := if flags &&& oAppend ≠ 0 then (s.ramfsNodePool node).size.toUInt64 else 0
    (fd, s.setFd fd { node := some node, offset := offset, flags := flags, refcount := 1 })

def vfsOpen (s : Vfs) (path : Str) (flags : UInt32) : Option (ℤ × Vfs) :=
  match vfsResolvePath s path with
  | .crash => none
  | .node node => some (openNode s node flags)
  | .null =>
    if flags &&& oCreat = 0 then some (-1, s)
    else
      match vfsCreate s path with
      | none => none
      | some (r, s) =>
        if r ≠ 0 then some (-1, s)
        else
          match vfsResolvePath s path with
          | .crash => none
          | .null => some (-1, s)
          | .node node => some (openNode s node flags)

def vfsClose (s : Vfs) (fd : ℤ) : ℤ × Vfs :=
  match liveFd s fd with
  | none => (-1, s)
  | some (i, file) =>
    let file := { file with refcount := file.refcount - 1 }
    (0, s.setFd i (if file.refcount = 0 then { file with node := none } else file))

/-- The descriptor after a transfer that returned `n`. -/
def advance (file : FileDescriptor) (n : ℤ) : FileDescriptor :=
  if n > 0 then { file with offset := file.offset + UInt64.ofInt n } else file

/-- The return value of `vfs_read`, the bytes it stores and the state after it. -/
def vfsRead (s : Vfs) (fd : ℤ) (count : UInt64) : Option (ℤ × List UInt8 × Vfs) :=
  match liveFd s fd with
  | none => some (-1, [], s)
  | some (i, file) =>
    match file.node.bind fun n => (s.ramfsNodePool n).ops with
    | none => some (-1, [], s)
    | some .ramfs =>
      match ramfsRead s file.node file.offset count.toUInt32 with
      | none => none
      | some (n, buffer) => some (n, buffer, s.setFd i (advance file n))

def vfsWrite (s : Vfs) (fd : ℤ) (buffer : ℕ → UInt8) (count : UInt64) : Option (ℤ × Vfs) :=
  match liveFd s fd with
  | none => some (-1, s)
  | some (i, file) =>
    match file.node.bind fun n => (s.ramfsNodePool n).ops with
    | none => some (-1, s)
    | some .ramfs =>
      match ramfsWrite answers s file.node file.offset count.toUInt32 buffer with
      | none => none
      | some (n, s) => some (n, s.setFd i (advance file n))

/-- `offset` is the bit pattern of the signed argument. -/
def vfsSeek (s : Vfs) (fd : ℤ) (offset : UInt64) (whence : ℤ) : ℤ × Vfs :=
  match liveFd s fd with
  | none => (-1, s)
  | some (i, file) =>
    if whence = 0 then (0, s.setFd i { file with offset := offset })
    else if whence = 1 then (0, s.setFd i { file with offset := file.offset + offset })
    else if whence = 2 then
      match file.node with
      | none => (0, s)
      | some n =>
        (0, s.setFd i { file with offset := (s.ramfsNodePool n).size.toUInt64 + offset })
    else (-1, s)

/-- `struct dirent`. -/
structure Dirent where
  inode : UInt32
  name : Str
  type : UInt32
  deriving DecidableEq, Repr

/-- The return value of `vfs_readdir`, the entry it fills in and the state after it. -/
def vfsReaddir (s : Vfs) (fd : ℤ) : ℤ × Option Dirent × Vfs :=
  match liveFd s fd with
  | none => (-1, none, s)
  | some (i, file) =>
    match file.node.bind fun n => (s.ramfsNodePool n).ops.map fun kind => (kind, n) with
    | none => (-1, none, s)
    | some (.ramfs, n) =>
      match ramfsReaddir s n file.offset.toUInt32 with
      | none => (-1, none, s)
      | some child =>
        let c := s.ramfsNodePool child
        (0, some ⟨c.inode, c.name.take 255, c.flags⟩,
          s.setFd i { file with offset := file.offset + 1 })

end Rhoudveine.Fs
