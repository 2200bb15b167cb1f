import Rhoudveine.Fs.Paths

/-!
# All file systems

The mount table and the lookups of `vfs.c` over every file system that the kernel registers.
ramfs is as before, and the root directories of DeviceFS and ProcessFS are static.  What a fat32
volume holds and finds is a parameter: each of its lookups fills in a new page, so its nodes are
told apart by what they hold.
-/

namespace Rhoudveine.Fs.Joint
open Search Walk

/-- `struct vfs_node *`, by the file system of the node. -/
inductive NodePtr (γ : Type)
  | ramfs (n : ℕ)
  /-- `devfs_root`, or an entry of `devfs_nodes`. -/
  | devfs (child : Option ℕ)
  /-- `procfs_root`, or an entry of `procfs_nodes`. -/
  | procfs (child : Option ℕ)
  | fat32 (volume : ℕ) (node : γ)
  deriving DecidableEq, Repr

/-- The callbacks of a `struct filesystem_type`. -/
inductive Driver
  | fat32
  | devfs
  | procfs
  | ramfs
  deriving DecidableEq, Repr

/-- What the mount table and the lookups use of `fat32_vfs.c`, with frames and transfers at hand:
`δ` is the disk, `υ` a `struct fat32_fs` and `γ` what the page of a node holds. -/
structure Fat32Ops (δ υ γ : Type) where
  mount : δ → (device : Option Str) → Option (υ × γ)
  flags : γ → UInt32
  finddir : δ → υ → γ → Str → Option γ
  create : δ → υ → γ → Str → UInt32 → ℤ × δ × υ

structure MountPoint (γ : Type) where
  path : Str
  root : Option (NodePtr γ)
  refcount : ℤ

structure FilesystemType where
  name : Str
  driver : Driver

/-- The tables of `vfs.c` and the states of the file systems.  Of `ramfs` only the pools of
`ramfs.c` are used. -/
structure State (δ υ γ : Type) where
  gMounts : ℕ → MountPoint γ
  gMountCount : ℕ
  gFsTypes : List FilesystemType
  gVfsRoot : Option (NodePtr γ)
  ramfs : Vfs
  devfsNames : List Str
  procfsNames : List Str
  disk : δ
  volumes : List υ

variable {δ υ γ : Type} (fat : Fat32Ops δ υ γ)

def State.setMount (s : State δ υ γ) (i : ℕ) (mp : MountPoint γ) : State δ υ γ :=
  { s with gMounts := Function.update s.gMounts i mp }

/-- After the file systems are registered, with the devices and processes that were added. -/
def init (frames : UInt64 → ℕ → UInt8) (devfsNames procfsNames : List Str) (disk : δ) :
    State δ υ γ where
  gMounts _ := ⟨[], none, 0⟩
  gMountCount := 0
  gFsTypes := [⟨str "fat32", .fat32⟩, ⟨str "DeviceFS", .devfs⟩, ⟨str "ProcessFS", .procfs⟩,
    ⟨str "ramfs", .ramfs⟩]
  gVfsRoot := none
  ramfs := vfsInit frames
  devfsNames := devfsNames
  procfsNames := procfsNames
  disk := disk
  volumes := []

/-! ## Lookups -/

/-- `devfs_finddir` and `procfs_finddir`: the first entry of this name. -/
def staticFinddir (names : List Str) (name : Str) : Option ℕ := names.findIdx? (· = name)

/-- The node's `finddir`; the entries of DeviceFS and ProcessFS have none. -/
def finddir (s : State δ υ γ) : NodePtr γ → Option (Str → Option (NodePtr γ))
  | .ramfs n => (s.ramfs.ramfsNodePool n).ops.map fun _ name =>
      (ramfsFinddir s.ramfs n name).map .ramfs
  | .devfs none => some fun name => (staticFinddir s.devfsNames name).map fun i => .devfs (some i)
  | .procfs none =>
    some fun name => (staticFinddir s.procfsNames name).map fun i => .procfs (some i)
  | .devfs (some _) | .procfs (some _) => none
  | .fat32 v node => some fun name =>
      s.volumes[v]?.bind fun fs => (fat.finddir s.disk fs node name).map (.fat32 v)

/-- The node that replaces `next` on the way.  Only nodes of ramfs are found again with the mount
that was entered in them: the others are files or new pages. -/
def followMount (s : State δ υ γ) (next : NodePtr γ) : Option (NodePtr γ) :=
  match next with
  | .ramfs n =>
    let node := s.ramfs.ramfsNodePool n
    if node.flags &&& vfsMountpoint ≠ 0 then
      match node.mount with
      | some mp => (s.gMounts mp).root
      | none => some next
    else some next
  | _ => some next

/-- The outcomes of `vfs_resolve_path`. -/
inductive Resolved (γ : Type)
  | node (n : NodePtr γ)
  | null
  | crash
  deriving DecidableEq, Repr

def Resolved.ofPointer : Option (NodePtr γ) → Resolved γ
  | some n => .node n
  | none => .null

/-- The loop of `vfs_resolve_path`. -/
def resolveLoop (s : State δ υ γ) :
    (rounds : ℕ) → (current : Option (NodePtr γ)) → Str → Resolved γ
  | _, current, [] => .ofPointer current
  | 0, _, _ :: _ => .null
  | rounds + 1, current, c :: p =>
    let component := (takeComponent 255 (c :: p)).1
    let p := skipSlash (takeComponent 255 (c :: p)).2
    if component = [] then resolveLoop s rounds current p
    else
      match current with
      | none => .crash
      | some current =>
        match finddir fat s current with
        | none => .null
        | some find =>
          match find component with
          | none => .null
          | some next => resolveLoop s rounds (followMount s next) p

def vfsResolvePath (s : State δ υ γ) (path : Str) : Resolved γ :=
  match s.gVfsRoot, path with
  | none, _ => .null
  | some _, [] => .null
  | some root, c :: p =>
    if c ≠ slash then .null
    else if p = [] then .node root
    else resolveLoop fat s p.length (some root) p

/-! ## Mounts -/

def findFsType (s : State δ υ γ) (name : Str) : Option FilesystemType :=
  s.gFsTypes.find? fun t => t.name = name

/-- The driver's `mount`: the root it stores in the entry, if it succeeds. -/
def mountRoot (s : State δ υ γ) (device : Option Str) (mp : ℕ) :
    Driver → Option (NodePtr γ × State δ υ γ)
  | .ramfs =>
    let out := ramfsMountOp s.ramfs mp
    if out.1 ≠ 0 then none
    else (out.2.gMounts mp).root.map fun root => (.ramfs root, { s with ramfs := out.2 })
  | .devfs => some (.devfs none, s)
  | .procfs => some (.procfs none, s)
  | .fat32 => (fat.mount s.disk device).map fun out =>
      (.fat32 s.volumes.length out.2, { s with volumes := s.volumes ++ [out.1] })

def isDir (s : State δ υ γ) : NodePtr γ → Prop
  | .ramfs n => (s.ramfs.ramfsNodePool n).isDir
  | .devfs child | .procfs child => child = none
  | .fat32 _ node => fat.flags node &&& vfsDirectory ≠ 0

instance (s : State δ υ γ) (p : NodePtr γ) : Decidable (isDir fat s p) := by
  cases p <;> unfold isDir <;> infer_instance

/-- Enter the mount in its place.  Other nodes than those of ramfs keep it where no lookup sees
it. -/
def linkMount (s : State δ υ γ) (mp : ℕ) : NodePtr γ → State δ υ γ
  | .ramfs n => { s with ramfs := Fs.linkMount s.ramfs n mp }
  | _ => s

def vfsMount (s : State δ υ γ) (path fstype : Str) (device : Option Str) :
    Option (ℤ × State δ υ γ) :=
  if s.gMountCount ≥ maxMounts then some (-1, s)
  else
    match findFsType s fstype with
    | none => some (-1, s)
    | some fs =>
      let mp := s.gMountCount
      let entry : MountPoint γ := { path := path.take 255, root := none, refcount := 0 }
      let s := s.setMount mp entry
      match mountRoot fat s device mp fs.driver with
      | none => some (-1, s)
      | some (root, s) =>
        let s := s.setMount mp { entry with root := some root }
        if path = [slash] then
          some (0, { linkMount s mp root with gVfsRoot := some root, gMountCount := mp + 1 })
        else
          match vfsResolvePath fat s path with
          | .crash => none
          | .null => some (-1, s)
          | .node mountNode =>
            if ¬ isDir fat s mountNode then some (-1, s)
            else some (0, { linkMount s mp mountNode with gMountCount := mp + 1 })

/-! ## Creating files and directories -/

/-- `vfs_create` and `vfs_mkdir`, which end in the parent's operation; the roots of DeviceFS and
ProcessFS have none. -/
def createAt (flags : UInt32) (s : State δ υ γ) (path : Str) : Option (ℤ × State δ υ γ) :=
  match vfsResolvePath fat s (vfsDirname path) with
  | .crash => none
  | .null => some (-1, s)
  | .node (.ramfs parent) =>
    match (s.ramfs.ramfsNodePool parent).ops with
    | none => some (-1, s)
    | some .ramfs =>
      let out := ramfsCreate s.ramfs parent (vfsBasename path) flags
      some (out.1, { s with ramfs := out.2 })
  | .node (.devfs _) | .node (.procfs _) => some (-1, s)
  | .node (.fat32 v parent) =>
    match s.volumes[v]? with
    | none => some (-1, s)
    | some fs =>
      let out := fat.create s.disk fs parent (vfsBasename path) flags
      some (out.1, { s with disk := out.2.1, volumes := s.volumes.set v out.2.2 })

def vfsCreate : State δ υ γ → (path : Str) → Option (ℤ × State δ υ γ) := createAt fat vfsFile

def vfsMkdir : State δ υ γ → (path : Str) → Option (ℤ × State δ υ γ) := createAt fat vfsDirectory

/-! ## Calls -/

inductive Call
  | mount (path fstype : Str) (device : Option Str)
  | mkdir (path : Str)
  | create (path : Str)

def call (s : State δ υ γ) : Call → Option (ℤ × State δ υ γ)
  | .mount path fstype device => vfsMount fat s path fstype device
  | .mkdir path => vfsMkdir fat s path
  | .create path => vfsCreate fat s path

/-- A call that returns. -/
def step (s : State δ υ γ) (c : Call) (s' : State δ υ γ) : Prop :=
  ∃ r, call fat s c = some (r, s')

end Rhoudveine.Fs.Joint
