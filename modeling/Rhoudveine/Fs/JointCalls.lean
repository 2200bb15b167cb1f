import Rhoudveine.Fs.DirectoryCursor
import Rhoudveine.Fs.Calls

/-!
# Open files on all file systems

The descriptor calls of `vfs.c` over every file system, and the tables of `devfs.c` and
`procfs.c` that they read.  What the operations of a fat32 node do is a parameter again.
-/

namespace Rhoudveine.Fs.Joint
open Search Walk

/-- The operations of a fat32 node that the descriptor calls use. -/
structure Fat32Files (δ υ γ : Type) where
  size : γ → UInt32
  openFile : δ → υ → γ → UInt32 → ℤ
  closeFile : δ → υ → γ → δ × υ
  read : δ → υ → γ → UInt64 → UInt32 → Option (ℤ × List UInt8)
  write : δ → υ → γ → UInt64 → UInt32 → (ℕ → UInt8) → Option (ℤ × δ × υ)
  readdir : δ → υ → γ → UInt32 → Option Dirent

/-- `struct file_descriptor`. -/
structure Descriptor (γ : Type) where
  node : Option (NodePtr γ)
  offset : UInt64
  flags : UInt32
  refcount : ℤ

/-- The mounted file systems, the descriptors and `procfs_content`. -/
structure Os (δ υ γ : Type) where
  tree : State δ υ γ
  gFds : ℕ → Descriptor γ
  procfsContent : List Str

variable {δ υ γ : Type} (fat : Fat32Ops δ υ γ) (files : Fat32Files δ υ γ)
variable (answers : ℕ → UInt64)

namespace Os

def setFd (o : Os δ υ γ) (fd : ℕ) (file : Descriptor γ) : Os δ υ γ :=
  { o with gFds := Function.update o.gFds fd file }

/-- The check at the head of every descriptor call. -/
def liveFd (o : Os δ υ γ) (fd : ℤ) : Option (ℕ × Descriptor γ) :=
  if fd < 0 ∨ fd ≥ maxFds ∨ (o.gFds fd.toNat).refcount = 0 then none
  else some (fd.toNat, o.gFds fd.toNat)

/-- The first free descriptor from 3 on. -/
def freeFd (o : Os δ υ γ) : Option ℕ :=
  firstSome (fun i => if (o.gFds i).refcount = 0 then some i else none) (maxFds - 3) 3

end Os

/-! ## DeviceFS and ProcessFS -/

def Os.devfsAddDevice (o : Os δ υ γ) (name : Str) : Os δ υ γ :=
  { o with tree := Joint.devfsAddDevice o.tree name }

/-- A full table takes no more, and the content is dropped as well. -/
def Os.procfsAddEntry (o : Os δ υ γ) (name content : Str) : Os δ υ γ :=
  { o with
    tree := Joint.procfsAddEntry o.tree name
    procfsContent :=
      if o.tree.procfsNames.length ≥ maxStaticNodes then o.procfsContent
      else o.procfsContent ++ [content.take 255] }

/-- `procfs_read`. -/
def procfsRead (content : Str) (offset : UInt64) (count : UInt32) : ℤ × List UInt8 :=
  if offset.toNat ≥ content.length then (0, [])
  else
    let bytes := (content.drop offset.toNat).take count.toNat
    (bytes.length, bytes)

/-! ## The operations of a node -/

def nodeSize (o : Os δ υ γ) : NodePtr γ → UInt32
  | .ramfs n => (o.tree.ramfs.ramfsNodePool n).size
  | .devfs _ | .procfs none => 0
  | .procfs (some i) => UInt32.ofNat (o.procfsContent[i]?.getD []).length
  | .fat32 _ node => files.size node

/-- `node->open`, where there is one. -/
def nodeOpen (o : Os δ υ γ) (flags : UInt32) : NodePtr γ → ℤ
  | .fat32 v node =>
    match o.tree.volumes[v]? with
    | none => -1
    | some fs => files.openFile o.tree.disk fs node flags
  | _ => 0

/-- `node->close`, where there is one. -/
def nodeClose (o : Os δ υ γ) : NodePtr γ → Os δ υ γ
  | .fat32 v node =>
    match o.tree.volumes[v]? with
    | none => o
    | some fs =>
      let out := files.closeFile o.tree.disk fs node
      { o with tree := { o.tree with disk := out.1, volumes := o.tree.volumes.set v out.2 } }
  | _ => o

/-- `node->read`; without one the call returns -1.  The result `none` is a crash. -/
def nodeRead (o : Os δ υ γ) (offset : UInt64) (count : UInt32) :
    NodePtr γ → Option (ℤ × List UInt8)
  | .ramfs n =>
    match (o.tree.ramfs.ramfsNodePool n).ops with
    | none => some (-1, [])
    | some .ramfs => ramfsRead o.tree.ramfs (some n) offset count
  | .devfs _ | .procfs none => some (-1, [])
  | .procfs (some i) => some (procfsRead (o.procfsContent[i]?.getD []) offset count)
  | .fat32 v node =>
    match o.tree.volumes[v]? with
    | none => some (-1, [])
    | some fs => files.read o.tree.disk fs node offset count

/-- `node->write`. -/
def nodeWrite (o : Os δ υ γ) (offset : UInt64) (count : UInt32) (buffer : ℕ → UInt8) :
    NodePtr γ → Option (ℤ × State δ υ γ)
  | .ramfs n =>
    match (o.tree.ramfs.ramfsNodePool n).ops with
    | none => some (-1, o.tree)
    | some .ramfs =>
      (ramfsWrite answers o.tree.ramfs (some n) offset count buffer).map fun out =>
        (out.1, { o.tree with ramfs := out.2 })
  | .devfs _ | .procfs _ => some (-1, o.tree)
  | .fat32 v node =>
    match o.tree.volumes[v]? with
    | none => some (-1, o.tree)
    | some fs =>
      (files.write o.tree.disk fs node offset count buffer).map fun out =>
        (out.1, { o.tree with disk := out.2.1, volumes := o.tree.volumes.set v out.2.2 })

/-- `node->readdir`, and the entry that `vfs_readdir` makes of its result. -/
def nodeReaddir (o : Os δ υ γ) (index : UInt32) : NodePtr γ → Option Dirent
  | .ramfs n =>
    (o.tree.ramfs.ramfsNodePool n).ops.bind fun _ =>
      (ramfsReaddir o.tree.ramfs n index).map fun child =>
        let c := o.tree.ramfs.ramfsNodePool child
        ⟨c.inode, c.name.take 255, c.flags⟩
  | .devfs none => o.tree.devfsNames[index.toNat]?.map fun name => ⟨0, name, vfsFile⟩
  | .procfs none => o.tree.procfsNames[index.toNat]?.map fun name => ⟨0, name, vfsFile⟩
  | .devfs (some _) | .procfs (some _) => none
  | .fat32 v node => o.tree.volumes[v]?.bind fun fs => files.readdir o.tree.disk fs node index

/-! ## The calls -/

/-- The part of `vfs_open` after the node is found. -/
def openNode (o : Os δ υ γ) (node : NodePtr γ) (flags : UInt32) : ℤ × Os δ υ γ :=
  match o.freeFd with
  | none => (-1, o)
  | some fd =>
    if nodeOpen files o flags node ≠ 0 then (-1, o)
    else
      let offset := if flags &&& oAppend ≠ 0 then (nodeSize files o node).toUInt64 else 0
      (fd, o.setFd fd { node := some node, offset := offset, flags := flags, refcount := 1 })

def vfsOpen (o : Os δ υ γ) (path : Str) (flags : UInt32) : Option (ℤ × Os δ υ γ) :=
  match vfsResolvePath fat o.tree path with
  | .crash => none
  | .node node => some (openNode files o node flags)
  | .null =>
    if flags &&& oCreat = 0 then some (-1, o)
    else
      match vfsCreate fat o.tree path with
      | none => none
      | some (r, tree) =>
        if r ≠ 0 then some (-1, { o with tree := tree })
        else
          match vfsResolvePath fat tree path with
          | .crash => none
          | .null => some (-1, { o with tree := tree })
          | .node node => some (openNode files { o with tree := tree } node flags)

def vfsClose (o : Os δ υ γ) (fd : ℤ) : ℤ × Os δ υ γ :=
  match o.liveFd fd with
  | none => (-1, o)
  | some (i, file) =>
    let file := { file with refcount := file.refcount - 1 }
    if file.refcount = 0 then
      let o := match file.node with
        | none => o
        | some node => nodeClose files o node
      (0, o.setFd i { file with node := none })
    else (0, o.setFd i file)

/-- The descriptor after a transfer that returned `n`. -/
def advance (file : Descriptor γ) (n : ℤ) : Descriptor γ :=
  if n > 0 then { file with offset := file.offset + UInt64.ofInt n } else file

def vfsRead (o : Os δ υ γ) (fd : ℤ) (count : UInt64) : Option (ℤ × List UInt8 × Os δ υ γ) :=
  match o.liveFd fd with
  | none => some (-1, [], o)
  | some (i, file) =>
    match file.node with
    | none => some (-1, [], o)
    | some node =>
      (nodeRead files o file.offset count.toUInt32 node).map fun out =>
        (out.1, out.2, o.setFd i (advance file out.1))

def vfsWrite (o : Os δ υ γ) (fd : ℤ) (buffer : ℕ → UInt8) (count : UInt64) :
    Option (ℤ × Os δ υ γ) :=
  match o.liveFd fd with
  | none => some (-1, o)
  | some (i, file) =>
    match file.node with
    | none => some (-1, o)
    | some node =>
      (nodeWrite files answers o file.offset count.toUInt32 buffer node).map fun out =>
        (out.1, ({ o with tree := out.2 }).setFd i (advance file out.1))

/-- `offset` is the bit pattern of the signed argument. -/
def vfsSeek (o : Os δ υ γ) (fd : ℤ) (offset : UInt64) (whence : ℤ) : ℤ × Os δ υ γ :=
  match o.liveFd fd with
  | none => (-1, o)
  | some (i, file) =>
    if whence = 0 then (0, o.setFd i { file with offset := offset })
    else if whence = 1 then (0, o.setFd i { file with offset := file.offset + offset })
    else if whence = 2 then
      match file.node with
      | none => (0, o)
      | some node =>
        (0, o.setFd i { file with offset := (nodeSize files o node).toUInt64 + offset })
    else (-1, o)

def vfsReaddir (o : Os δ υ γ) (fd : ℤ) : ℤ × Option Dirent × Os δ υ γ :=
  match o.liveFd fd with
  | none => (-1, none, o)
  | some (i, file) =>
    match file.node.bind (nodeReaddir files o file.offset.toUInt32) with
    | none => (-1, none, o)
    | some entry => (0, some entry, o.setFd i { file with offset := file.offset + 1 })

/-- One call; `none` if it crashes. -/
def vfsCall (o : Os δ υ γ) : VfsCall → Option (VfsReply × Os δ υ γ)
  | .mount path fstype =>
    (vfsMount fat o.tree path fstype none).map fun out =>
      (.ofValue out.1, { o with tree := out.2 })
  | .mkdir path =>
    (vfsMkdir fat o.tree path).map fun out => (.ofValue out.1, { o with tree := out.2 })
  | .create path =>
    (vfsCreate fat o.tree path).map fun out => (.ofValue out.1, { o with tree := out.2 })
  | .open path flags =>
    (vfsOpen fat files o path flags).map fun out => (.ofValue out.1, out.2)
  | .close fd => some (.ofValue (vfsClose files o fd).1, (vfsClose files o fd).2)
  | .read fd count =>
    (vfsRead files o fd count).map fun out => (⟨out.1, out.2.1, none⟩, out.2.2)
  | .write fd buffer count =>
    (vfsWrite files answers o fd buffer count).map fun out => (.ofValue out.1, out.2)
  | .seek fd offset whence =>
    some (.ofValue (vfsSeek files o fd offset whence).1, (vfsSeek files o fd offset whence).2)
  | .readdir fd =>
    some (⟨(vfsReaddir files o fd).1, [], (vfsReaddir files o fd).2.1⟩,
      (vfsReaddir files o fd).2.2)

/-! ## What a mount leaves alone -/

section mount

variable {fat} {s s' t : State δ υ γ} {path fstype : Str} {device : Option Str} {r : ℤ}

variable (fat) in
theorem Joined.resolve_ne_crash (h : Joined s) (p : Str) : vfsResolvePath fat s p ≠ .crash := by
  by_cases hhead : p.head? = some slash
  · cases hroot : s.gVfsRoot with
    | none =>
      unfold vfsResolvePath
      rw [hroot]
      simp
    | some root =>
      rw [h.resolve_walk hroot hhead]
      cases walk (enter fat s) root (tokens p) <;> simp [Resolved.ofPointer]
  · rw [vfsResolvePath_relative hhead]
    simp

variable (fat) in
theorem Joined.mount_returns (h : Joined s) (path fstype : Str) (device : Option Str) :
    ∃ r s', vfsMount fat s path fstype device = some (r, s') := by
  unfold vfsMount
  by_cases hfull : s.gMountCount ≥ maxMounts
  · exact ⟨_, _, if_pos hfull⟩
  rw [if_neg hfull]
  cases hfs : findFsType s fstype with
  | none => exact ⟨_, _, rfl⟩
  | some fs =>
    dsimp only
    cases hm : mountRoot fat (s.setMount s.gMountCount ⟨path.take 255, none, 0⟩) device
        s.gMountCount fs.driver with
    | none => exact ⟨_, _, rfl⟩
    | some out =>
      obtain ⟨root, t⟩ := out
      have hfilled : Filled s fstype root
          (t.setMount s.gMountCount ⟨path.take 255, some root, 0⟩) := mountRoot_filled hfs hm rfl
      have hcrash := (h.filled hfilled).resolve_ne_crash fat path
      dsimp only
      by_cases hpath : path = [slash]
      · exact ⟨_, _, if_pos hpath⟩
      · rw [if_neg hpath]
        cases hres : vfsResolvePath fat
            (t.setMount s.gMountCount ⟨path.take 255, some root, 0⟩) path with
        | crash => exact absurd hres hcrash
        | null => exact ⟨_, _, rfl⟩
        | node d =>
          dsimp only
          split
          · exact ⟨_, _, rfl⟩
          · exact ⟨_, _, rfl⟩

/-- Paths that do not lead through the mount point lead where they led before. -/
theorem Joined.resolve_elsewhere (h : Joined s)
    (hm : vfsMount fat s path fstype device = some (r, s')) (hpath : path ≠ [slash]) {p : Str}
    (hp : ¬ tokens path <+: tokens p) : vfsResolvePath fat s' p = vfsResolvePath fat s p := by
  have hfilled {root : NodePtr γ} {t : State δ υ γ} (hf : Filled s fstype root t) (q : Str) :
      vfsResolvePath fat t q = vfsResolvePath fat s q := by
    refine h.resolve_congr (h.filled hf) hf.vfsRoot (fun p x hp => ?_) q
    rw [enter, hf.child h hp, enter]
    apply Option.bind_congr
    intro c hc
    exact hf.followMount h (h.child_known hp hc)
  cases vfsMount_cases hm with
  | refused => rfl
  | noRoot entry =>
    refine h.resolve_congr (h.setMount entry) rfl (fun p x hp => ?_) p
    have hchild : child fat (s.setMount s.gMountCount entry) p x = child fat s p x := by
      cases p <;> rfl
    rw [enter, hchild, enter]
    apply Option.bind_congr
    intro c hc
    cases c with
    | ramfs n =>
      unfold followMount
      have hramfs : (s.setMount s.gMountCount entry).ramfs = s.ramfs := rfl
      dsimp only
      rw [hramfs]
      cases hk : (s.ramfs.ramfsNodePool n).mount with
      | none => rfl
      | some k =>
        have hne : k ≠ s.gMountCount := Nat.ne_of_lt (h.link_lt n k hk)
        have hold : (s.setMount s.gMountCount entry).gMounts k = s.gMounts k :=
          Function.update_of_ne hne ..
        dsimp only
        rw [hold]
    | devfs => rfl
    | procfs => rfl
    | fat32 => rfl
  | noPlace hf => exact hfilled hf p
  | root _ hslash => exact absurd hslash hpath
  | @dir root d t hf _ hres =>
    have hlinked : { linkMount t s.gMountCount d with gMountCount := s.gMountCount + 1 } =
        linkedAt s t d s.gVfsRoot := by
      have hkeep : (linkMount t s.gMountCount d).gVfsRoot = s.gVfsRoot := by
        cases d <;> exact hf.vfsRoot
      rw [linkedAt, ← hkeep]
    rw [hlinked]
    rw [hfilled hf] at hres
    by_cases hplain : PlainDirectory s d
    · exact (h.shows_plain hf hres hplain).elsewhere p fun hle => hp hle.2
    · exact h.resolve_congr (h.linked hf (Or.inl rfl)) rfl
        (fun p x hp => h.enter_hidden hf hplain hp x) p

theorem mount_vfsRoot (hm : vfsMount fat s path fstype device = some (r, s'))
    (hpath : path ≠ [slash]) : s'.gVfsRoot = s.gVfsRoot := by
  cases vfsMount_cases hm with
  | refused => rfl
  | noRoot entry => rfl
  | noPlace hf => exact hf.vfsRoot
  | root _ hslash => exact absurd hslash hpath
  | @dir root d t hf => cases d <;> exact hf.vfsRoot

/-- Other names in DeviceFS and ProcessFS. -/
def State.withNames (s : State δ υ γ) (devfsNames procfsNames : List Str) : State δ υ γ :=
  { s with devfsNames := devfsNames, procfsNames := procfsNames }

theorem Joined.withNames (h : Joined s) (devfsNames procfsNames : List Str) :
    Joined (s.withNames devfsNames procfsNames) where
  forest := h.forest
  entry_known i hi := by
    obtain ⟨p, hp, hknown⟩ := h.entry_known i hi
    exact ⟨p, hp, by cases p <;> exact hknown⟩
  root_entry := h.root_entry
  root_inj := h.root_inj
  link_lt := h.link_lt
  link_inj := h.link_inj

/-- A walk to a node of ramfs only meets nodes of ramfs. -/
theorem Joined.walk_ramfs (h : Joined s)
    (hsame : ∀ n x, enter fat s' (.ramfs n) x = enter fat s (.ramfs n) x) {a m : ℕ}
    {xs : List Str} (hw : walk (enter fat s) (.ramfs a) xs = some (.ramfs m)) :
    walk (enter fat s') (.ramfs a) xs = some (.ramfs m) := by
  induction xs using List.reverseRecOn generalizing m with
  | nil => exact hw
  | append_singleton xs x ih =>
    rw [walk_concat] at hw
    obtain ⟨p, hp, hx⟩ := Option.bind_eq_some_iff.mp hw
    obtain ⟨n, -, rfl, -⟩ := h.enter_ramfs hx
    rw [walk_concat, ih hp, Option.bind_some, hsame, hx]

/-- What `ramfs_read` looks at. -/
structure SameFile (s s' : Vfs) (n : ℕ) : Prop where
  isDir : (s'.ramfsNodePool n).isDir ↔ (s.ramfsNodePool n).isDir
  ops : (s'.ramfsNodePool n).ops = (s.ramfsNodePool n).ops
  fsData : (s'.ramfsNodePool n).fsData = (s.ramfsNodePool n).fsData
  size : (s'.ramfsNodePool n).size = (s.ramfsNodePool n).size
  files : s'.fileDataPool = s.fileDataPool
  frames : s'.frames = s.frames

theorem SameFile.read {s s' : Vfs} {n : ℕ} (h : SameFile s s' n) (offset : UInt64)
    (count : UInt32) : ramfsRead s' (some n) offset count = ramfsRead s (some n) offset count := by
  unfold ramfsRead
  simp only [h.isDir, h.fsData, h.size, h.files, h.frames]

theorem SameFile.trans {s s' s'' : Vfs} {n : ℕ} (h : SameFile s s' n) (h' : SameFile s' s'' n) :
    SameFile s s'' n where
  isDir := h'.isDir.trans h.isDir
  ops := h'.ops.trans h.ops
  fsData := h'.fsData.trans h.fsData
  size := h'.size.trans h.size
  files := h'.files.trans h.files
  frames := h'.frames.trans h.frames

theorem Filled.sameFile {root : NodePtr γ} (hf : Filled s fstype root t) {n : ℕ}
    (hn : n < s.ramfs.ramfsNodeCount) : SameFile s.ramfs t.ramfs n := by
  have hnode := hf.pool hn
  refine ⟨by rw [hnode], by rw [hnode], by rw [hnode], by rw [hnode], ?_, ?_⟩
  · rcases hf.ramfs with ⟨⟨entry, heq⟩, -⟩ | ⟨heq, -⟩
    · rw [heq]
      rfl
    · rw [heq]
  · rcases hf.ramfs with ⟨⟨entry, heq⟩, -⟩ | ⟨heq, -⟩
    · rw [heq]
      rfl
    · rw [heq]

theorem sameFile_linkMount (s : State δ υ γ) (mp : ℕ) (d : NodePtr γ) (n : ℕ) :
    SameFile s.ramfs (linkMount s mp d).ramfs n := by
  cases d with
  | ramfs m =>
    by_cases hn : n = m
    · subst hn
      have hnode := linkMount_self s.ramfs n mp
      exact ⟨isDir_linkMount .., by rw [linkMount, hnode], by rw [linkMount, hnode],
        by rw [linkMount, hnode], rfl, rfl⟩
    · have hnode := linkMount_of_ne s.ramfs mp hn
      exact ⟨isDir_linkMount .., by rw [linkMount, hnode], by rw [linkMount, hnode],
        by rw [linkMount, hnode], rfl, rfl⟩
  | devfs => exact ⟨Iff.rfl, rfl, rfl, rfl, rfl, rfl⟩
  | procfs => exact ⟨Iff.rfl, rfl, rfl, rfl, rfl, rfl⟩
  | fat32 => exact ⟨Iff.rfl, rfl, rfl, rfl, rfl, rfl⟩

/-- A mount changes no file. -/
theorem sameFile_mount (hm : vfsMount fat s path fstype device = some (r, s')) {n : ℕ}
    (hn : n < s.ramfs.ramfsNodeCount) : SameFile s.ramfs s'.ramfs n := by
  cases vfsMount_cases hm with
  | refused => exact ⟨Iff.rfl, rfl, rfl, rfl, rfl, rfl⟩
  | noRoot entry => exact ⟨Iff.rfl, rfl, rfl, rfl, rfl, rfl⟩
  | noPlace hf => exact hf.sameFile hn
  | @root root t hf => exact (hf.sameFile hn).trans (sameFile_linkMount t s.gMountCount root n)
  | @dir root d t hf => exact (hf.sameFile hn).trans (sameFile_linkMount t s.gMountCount d n)

end mount

end Rhoudveine.Fs.Joint
