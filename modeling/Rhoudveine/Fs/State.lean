import Mathlib

/-!
# The state of the VFS and of ramfs

The static tables of `vfs.c` and `ramfs.c`.  A pointer into a table is an index,
a null pointer is `none`, and a C string is the list of its bytes without the
terminator.
-/

namespace Rhoudveine.Fs

abbrev Str := List UInt8

/-- The bytes of an ASCII literal. -/
def str (s : String) : Str := s.toList.map fun c => UInt8.ofNat c.toNat

def slash : UInt8 := 0x2F

/-! ## Constants -/

def vfsFile : UInt32 := 0x01
def vfsDirectory : UInt32 := 0x02
def vfsMountpoint : UInt32 := 0x40

def oCreat : UInt32 := 0x0100
def oAppend : UInt32 := 0x0400

def maxMounts : ℕ := 16
def maxFds : ℕ := 256
def maxFsTypes : ℕ := 16
def ramfsMaxChildren : ℕ := 64
def maxRamfsNodes : ℕ := 64
def maxRamfsFiles : ℕ := 64

/-- Entries of `ramfs_file_data_t.pages`. -/
def maxFilePages : ℕ := 128

/-! ## Nodes and files -/

/-- The file system whose functions a node's operation pointers name. -/
inductive FsKind
  | ramfs
  deriving DecidableEq, Repr

/-- What `fs_data` points to. -/
inductive FsData
  | null
  | dir (index : ℕ)
  | file (index : ℕ)
  deriving DecidableEq, Repr

/-- `struct vfs_node`; `ops` is `none` while the operation pointers are null. -/
structure Node where
  name : Str
  inode : UInt32
  size : UInt32
  flags : UInt32
  ops : Option FsKind
  fsData : FsData
  mount : Option ℕ
  deriving DecidableEq, Repr

namespace Node

def isDir (n : Node) : Prop := n.flags &&& vfsDirectory ≠ 0

instance (n : Node) : Decidable n.isDir := inferInstanceAs (Decidable (_ ≠ _))

/-- A cleared node of the static pool. -/
def zero : Node := ⟨[], 0, 0, 0, none, .null, none⟩

end Node

/-- `ramfs_file_data_t`: a page is named by its physical address.  As in the other tables,
entries past the end of the array stand for nothing. -/
structure FileData where
  pages : ℕ → Option UInt64
  numPages : UInt32

/-- `ramfs_node_data_t`. -/
structure DirData where
  childNames : ℕ → Str
  children : ℕ → Option ℕ

/-- `struct mount_point` without `fs_private`, which nothing reads. -/
structure Mount where
  path : Str
  root : Option ℕ
  refcount : ℤ
  deriving DecidableEq, Repr

structure FileDescriptor where
  node : Option ℕ
  offset : UInt64
  flags : UInt32
  refcount : ℤ
  deriving DecidableEq, Repr

/-- `struct filesystem_type`: the callbacks are the kind's own. -/
structure FilesystemType where
  name : Str
  kind : FsKind
  deriving DecidableEq, Repr

/-! ## The whole state -/

/-- The tables of `vfs.c`, the pools of `ramfs.c`, the contents of the physical frames,
and the number of calls of `pfa_alloc_low` that ramfs has made. -/
structure Vfs where
  gMounts : ℕ → Mount
  gMountCount : ℕ
  gFds : ℕ → FileDescriptor
  gFsTypes : List FilesystemType
  gVfsRoot : Option ℕ
  ramfsNodePool : ℕ → Node
  ramfsDataPool : ℕ → DirData
  ramfsNodeCount : ℕ
  fileDataPool : ℕ → FileData
  fileDataCount : ℕ
  frames : UInt64 → ℕ → UInt8
  allocs : ℕ

namespace Vfs

def setNode (s : Vfs) (n : ℕ) (node : Node) : Vfs :=
  { s with ramfsNodePool := Function.update s.ramfsNodePool n node }

def setDir (s : Vfs) (d : ℕ) (dir : DirData) : Vfs :=
  { s with ramfsDataPool := Function.update s.ramfsDataPool d dir }

def setFile (s : Vfs) (k : ℕ) (file : FileData) : Vfs :=
  { s with fileDataPool := Function.update s.fileDataPool k file }

def setMount (s : Vfs) (i : ℕ) (mp : Mount) : Vfs :=
  { s with gMounts := Function.update s.gMounts i mp }

def setFd (s : Vfs) (fd : ℕ) (file : FileDescriptor) : Vfs :=
  { s with gFds := Function.update s.gFds fd file }

end Vfs

/-- After `vfs_init` and `ramfs_register`, with the ramfs pools still zeroed. -/
def vfsInit (frames : UInt64 → ℕ → UInt8) : Vfs where
  gMounts _ := ⟨[], none, 0⟩
  gMountCount := 0
  gFds _ := ⟨none, 0, 0, 0⟩
  gFsTypes := [⟨str "ramfs", .ramfs⟩]
  gVfsRoot := none
  ramfsNodePool _ := Node.zero
  ramfsDataPool _ := ⟨fun _ => [], fun _ => none⟩
  ramfsNodeCount := 0
  fileDataPool _ := ⟨fun _ => none, 0⟩
  fileDataCount := 0
  frames := frames
  allocs := 0

end Rhoudveine.Fs
