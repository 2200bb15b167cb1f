import Rhoudveine.Fs.JointCalls
import Rhoudveine.Fs.Recycled

/-!
# ramfs alone

While no other file system is mounted, the calls over all file systems do what they do over the
tables of ramfs alone.
-/

namespace Rhoudveine.Fs

/-! ## What ramfs does not read -/

/-- The pools of `s` with the tables of `t`. -/
def Vfs.withTables (s t : Vfs) : Vfs :=
  { s with
    gMounts := t.gMounts
    gMountCount := t.gMountCount
    gFds := t.gFds
    gFsTypes := t.gFsTypes
    gVfsRoot := t.gVfsRoot }

variable (s t : Vfs)

theorem ramfsFinddir_withTables (n : ℕ) (x : Str) :
    ramfsFinddir (s.withTables t) n x = ramfsFinddir s n x := rfl

theorem ramfsRead_withTables (node : Option ℕ) (offset : UInt64) (size : UInt32) :
    ramfsRead (s.withTables t) node offset size = ramfsRead s node offset size := rfl

theorem ramfsReaddir_withTables (n : ℕ) (index : UInt32) :
    ramfsReaddir (s.withTables t) n index = ramfsReaddir s n index := rfl

theorem ramfsAllocNode_withTables (name : Str) (flags : UInt32) :
    ramfsAllocNode (s.withTables t) name flags =
      ((ramfsAllocNode s name flags).1, (ramfsAllocNode s name flags).2.withTables t) := by
  have hcount : (s.withTables t).ramfsNodeCount = s.ramfsNodeCount := rfl
  unfold ramfsAllocNode
  rw [hcount]
  split
  · rfl
  · rfl

theorem ramfsCreate_withTables (parent : ℕ) (name : Str) (flags : UInt32) :
    ramfsCreate (s.withTables t) parent name flags =
      ((ramfsCreate s parent name flags).1, (ramfsCreate s parent name flags).2.withTables t) := by
  have hnodes : (s.withTables t).ramfsNodePool = s.ramfsNodePool := rfl
  have hdirs : (s.withTables t).ramfsDataPool = s.ramfsDataPool := rfl
  unfold ramfsCreate
  simp only [hnodes, hdirs, ramfsAllocNode_withTables]
  split
  · rfl
  · split
    · split
      · rfl
      · obtain ⟨index, s'⟩ := ramfsAllocNode s name flags
        cases index with
        | none => rfl
        | some index => rfl
    · rfl

/-- The driver also names the new root in its table. -/
theorem ramfsMountOp_withTables (mp : ℕ) :
    ramfsMountOp (s.withTables t) mp =
      if s.ramfsNodeCount ≥ maxRamfsNodes then (-1, s.withTables t)
      else (0, (addNode s (newNode s [slash] vfsDirectory)).withTables
        (t.setMount mp { t.gMounts mp with root := some s.ramfsNodeCount })) := by
  by_cases hroom : s.ramfsNodeCount ≥ maxRamfsNodes
  · have hroom' : (s.withTables t).ramfsNodeCount ≥ maxRamfsNodes := hroom
    rw [if_pos hroom, ramfsMountOp, ramfsAllocNode, if_pos hroom']
  · have hroom' : ¬ (s.withTables t).ramfsNodeCount ≥ maxRamfsNodes := hroom
    rw [if_neg hroom, ramfsMountOp, ramfsAllocNode, if_neg hroom']
    simp only [setNode_addNode, addNode_new]
    rfl

theorem raiseSize_withTables (node : ℕ) (last : UInt64) :
    raiseSize (s.withTables t) node last = (raiseSize s node last).withTables t := by
  have hnodes : (s.withTables t).ramfsNodePool = s.ramfsNodePool := rfl
  unfold raiseSize
  simp only [hnodes]
  split
  · rfl
  · rfl

theorem storeBytes_withTables (node k : ℕ) (offset : UInt64) (size : UInt32) (data : ℕ → UInt8) :
    storeBytes (s.withTables t) node k offset size data =
      (storeBytes s node k offset size data).map fun out => (out.1, out.2.withTables t) := by
  have hfiles : (s.withTables t).fileDataPool = s.fileDataPool := rfl
  have hframes : (s.withTables t).frames = s.frames := rfl
  unfold storeBytes
  rw [hfiles, hframes]
  cases writeLoop (s.fileDataPool k) data size.toNat 0 size offset s.frames with
  | none => rfl
  | some out =>
    obtain ⟨written, frames⟩ := out
    have hraise := raiseSize_withTables { s with frames := frames } t node
      (offset + written.toUInt64)
    exact congrArg (fun r => some (written.toInt32.toInt, r)) hraise

theorem writeFile_withTables (answers : ℕ → UInt64) (node k : ℕ) (offset : UInt64) (size : UInt32)
    (data : ℕ → UInt8) :
    writeFile answers (s.withTables t) node k offset size data =
      (writeFile answers s node k offset size data).map fun out => (out.1, out.2.withTables t) := by
  have hfiles : (s.withTables t).fileDataPool = s.fileDataPool := rfl
  have hallocs : (s.withTables t).allocs = s.allocs := rfl
  unfold writeFile
  simp only [hfiles, hallocs]
  obtain ⟨done, file, allocs⟩ := allocPages answers (endPage offset size) maxFilePages
    (s.fileDataPool k).numPages (s.fileDataPool k) s.allocs
  cases done with
  | false => rfl
  | true =>
    let file' :=
      if endPage offset size ≥ file.numPages then { file with numPages := endPage offset size + 1 }
      else file
    exact storeBytes_withTables { s.setFile k file' with allocs := allocs } t node k offset size data

theorem ramfsWrite_withTables (answers : ℕ → UInt64) (node : Option ℕ) (offset : UInt64)
    (size : UInt32) (data : ℕ → UInt8) :
    ramfsWrite answers (s.withTables t) node offset size data =
      (ramfsWrite answers s node offset size data).map fun out => (out.1, out.2.withTables t) := by
  cases node with
  | none => rfl
  | some node =>
    have hnodes : (s.withTables t).ramfsNodePool = s.ramfsNodePool := rfl
    have hensure (fsData : FsData) : ensureFileData (s.withTables t) node fsData =
        (ensureFileData s node fsData).map fun out => (out.1, out.2.withTables t) := by
      have hcount : (s.withTables t).fileDataCount = s.fileDataCount := rfl
      unfold ensureFileData
      rw [hcount]
      cases fsData with
      | file k => rfl
      | null =>
        dsimp only
        split
        · rfl
        · rfl
      | dir d =>
        dsimp only
        split
        · rfl
        · rfl
    simp only [ramfsWrite, hnodes, hensure]
    split
    · rfl
    · cases ensureFileData s node (s.ramfsNodePool node).fsData with
      | none => rfl
      | some out => exact writeFile_withTables out.2 t answers node out.1 offset size data

namespace Joint

variable {δ υ γ : Type} {fat : Fat32Ops δ υ γ} {files : Fat32Files δ υ γ}
variable {s s' : Vfs} {o o' : Os δ υ γ} {answers : ℕ → UInt64}

/-! ## The same state in both models -/

def ofMount (mp : Mount) : MountPoint γ := ⟨mp.path, mp.root.map .ramfs, mp.refcount⟩

def ofFile (file : FileDescriptor) : Descriptor γ :=
  ⟨file.node.map .ramfs, file.offset, file.flags, file.refcount⟩

def ofResolved : Fs.Resolved → Resolved γ
  | .node n => .node (.ramfs n)
  | .null => .null
  | .crash => .crash

/-- The file systems beside ramfs. -/
def otherTypes : List Str := [str "fat32", str "DeviceFS", str "ProcessFS"]

/-- `o` holds the tables of `s`, and beside ramfs nothing is mounted. -/
structure Embeds (s : Vfs) (o : Os δ υ γ) : Prop where
  pools : ∃ t, o.tree.ramfs = s.withTables t
  mounts : ∀ i, o.tree.gMounts i = ofMount (s.gMounts i)
  count : o.tree.gMountCount = s.gMountCount
  root : o.tree.gVfsRoot = s.gVfsRoot.map .ramfs
  fds : ∀ i, o.gFds i = ofFile (s.gFds i)
  types : ∀ name ∉ otherTypes, (findFsType o.tree name).map FilesystemType.driver =
    (Fs.findFsType s name).map fun _ => .ramfs

/-- The machine before anything but ramfs is mounted. -/
def ofVfs (s : Vfs) (disk : δ) : Os δ υ γ where
  tree :=
    { (init s.frames [] [] disk : State δ υ γ) with
      gMounts := fun i => ofMount (s.gMounts i)
      gMountCount := s.gMountCount
      gVfsRoot := s.gVfsRoot.map .ramfs
      ramfs := s }
  gFds i := ofFile (s.gFds i)
  procfsContent := []

namespace Embeds

theorem node (h : Embeds s o) (n : ℕ) :
    o.tree.ramfs.ramfsNodePool n = s.ramfsNodePool n := by
  obtain ⟨t, ht⟩ := h.pools
  rw [ht]
  rfl

theorem finddir (h : Embeds s o) (n : ℕ) (x : Str) :
    ramfsFinddir o.tree.ramfs n x = ramfsFinddir s n x := by
  obtain ⟨t, ht⟩ := h.pools
  rw [ht]
  rfl

variable (fat) in
theorem isDir (h : Embeds s o) (d : ℕ) :
    Joint.isDir fat o.tree (.ramfs d) ↔ (s.ramfsNodePool d).isDir := by
  rw [Joint.isDir, h.node]

theorem followMount (h : Embeds s o) (n : ℕ) :
    Joint.followMount o.tree (.ramfs n) = (Fs.followMount s n).map .ramfs := by
  simp only [Joint.followMount, Fs.followMount, h.node]
  split
  · cases (s.ramfsNodePool n).mount with
    | none => rfl
    | some mp =>
      simp only [h.mounts mp]
      rfl
  · rfl

theorem resolveLoop (h : Embeds s o) (rounds : ℕ) (current : Option ℕ) (p : Str) :
    Joint.resolveLoop fat o.tree rounds (current.map .ramfs) p =
      ofResolved (Fs.resolveLoop s rounds current p) := by
  induction rounds generalizing current p with
  | zero =>
    cases p with
    | nil => cases current <;> rfl
    | cons c p => rfl
  | succ rounds ih =>
    cases p with
    | nil => cases current <;> rfl
    | cons c p =>
      have hjoint := Joint.resolveLoop.eq_def fat o.tree (rounds + 1)
        (current.map NodePtr.ramfs) (c :: p)
      by_cases hempty : (takeComponent 255 (c :: p)).1 = []
      · simp only [if_pos hempty] at hjoint
        rw [hjoint, resolveLoop_empty s rounds current hempty]
        exact ih current _
      · simp only [if_neg hempty] at hjoint
        cases current with
        | none => rw [hjoint, resolveLoop_null s rounds hempty]; rfl
        | some current =>
          rw [hjoint, resolveLoop_component s rounds current hempty]
          simp only [Option.map_some, Joint.finddir, h.node, h.finddir]
          cases (s.ramfsNodePool current).ops with
          | none => rfl
          | some kind =>
            cases kind
            simp only [Option.map_some]
            cases ramfsFinddir s current (takeComponent 255 (c :: p)).1 with
            | none => rfl
            | some next =>
              simp only [Option.map_some, h.followMount]
              exact ih _ _

variable (fat) in
theorem resolve (h : Embeds s o) (path : Str) :
    Joint.vfsResolvePath fat o.tree path = ofResolved (Fs.vfsResolvePath s path) := by
  simp only [Joint.vfsResolvePath, Fs.vfsResolvePath, h.root]
  cases s.gVfsRoot with
  | none => rfl
  | some root =>
    cases path with
    | nil => rfl
    | cons c p =>
      simp only [Option.map_some]
      split
      · rfl
      · split
        · rfl
        · exact h.resolveLoop p.length (some root) p

/-- The pools may change. -/
theorem setRamfs (h : Embeds s o) (hs' : s'.withTables s = s') {r : Vfs}
    (hr : ∃ t, r = s'.withTables t) :
    Embeds s' { o with tree := { o.tree with ramfs := r } } where
  pools := hr
  mounts i := by rw [← hs']; exact h.mounts i
  count := by rw [← hs']; exact h.count
  root := by rw [← hs']; exact h.root
  fds i := by rw [← hs']; exact h.fds i
  types := by rw [← hs']; exact h.types

theorem setFd (h : Embeds s o) (i : ℕ) (file : FileDescriptor) :
    Embeds (s.setFd i file) (o.setFd i (ofFile file)) where
  pools := h.pools
  mounts := h.mounts
  count := h.count
  root := h.root
  fds j := by
    by_cases hj : j = i
    · subst hj
      simp [Vfs.setFd, Os.setFd]
    · simp [Vfs.setFd, Os.setFd, hj, h.fds]
  types := h.types

theorem liveFd (h : Embeds s o) (fd : ℤ) :
    o.liveFd fd = (Fs.liveFd s fd).map fun live => (live.1, ofFile live.2) := by
  simp only [Os.liveFd, Fs.liveFd, h.fds, ofFile]
  split
  · rfl
  · rfl

theorem freeFd (h : Embeds s o) : o.freeFd = Fs.freeFd s := by
  simp only [Os.freeFd, Fs.freeFd, h.fds, ofFile]

end Embeds

/-! ## The calls agree -/

/-- The same result in both models, and states that embed. -/
def Agree {α : Type} (out : Option (α × Vfs)) (out' : Option (α × Os δ υ γ)) : Prop :=
  match out with
  | none => out' = none
  | some (a, s') => ∃ o', out' = some (a, o') ∧ Embeds s' o'

theorem Agree.some {α : Type} (a : α) (h : Embeds s' o') : Agree (some (a, s')) (some (a, o')) :=
  ⟨o', rfl, h⟩

theorem Agree.map {α β : Type} (f : α → β) {out : Option (α × Vfs)}
    {out' : Option (α × Os δ υ γ)} (h : Agree out out') :
    Agree (out.map fun x => (f x.1, x.2)) (out'.map fun x => (f x.1, x.2)) := by
  cases out with
  | none => rw [show out' = none from h]; rfl
  | some x =>
    obtain ⟨o', rfl, ho'⟩ := h
    exact ⟨o', rfl, ho'⟩

namespace Embeds

variable (fat) in
theorem createAt (h : Embeds s o) (op : Vfs → ℕ → Str → ℤ × Vfs) (flags : UInt32)
    (hop : ∀ s parent name, op s parent name = ramfsCreate s parent name flags) (path : Str) :
    Agree (Fs.createAt op s path)
      ((Joint.createAt fat flags o.tree path).map fun out => (out.1, { o with tree := out.2 })) := by
  obtain ⟨t, ht⟩ := h.pools
  rw [Fs.createAt, Joint.createAt, h.resolve]
  cases Fs.vfsResolvePath s (vfsDirname path) with
  | crash => rfl
  | null => exact .some _ h
  | node parent =>
    simp only [ofResolved, h.node]
    cases (s.ramfsNodePool parent).ops with
    | none => exact .some _ h
    | some kind =>
      cases kind
      have hself := congrArg Prod.snd (ramfsCreate_withTables s s parent (vfsBasename path) flags)
      simp only [hop, ht, ramfsCreate_withTables]
      exact .some _ (h.setRamfs hself.symm ⟨t, rfl⟩)

theorem openNode (h : Embeds s o) (n : ℕ) (flags : UInt32) :
    Agree (some (Fs.openNode s n flags)) (some (Joint.openNode files o (.ramfs n) flags)) := by
  rw [Fs.openNode, Joint.openNode, h.freeFd]
  cases Fs.freeFd s with
  | none => exact .some _ h
  | some fd =>
    have hopen : ¬ nodeOpen files o flags (.ramfs n) ≠ 0 := fun hne => hne rfl
    have hsize : nodeSize files o (.ramfs n) = (s.ramfsNodePool n).size :=
      congrArg Node.size (h.node n)
    simp only [if_neg hopen, hsize]
    exact .some _ (h.setFd fd _)

theorem vfsOpen (h : Embeds s o) (path : Str) (flags : UInt32) :
    Agree (Fs.vfsOpen s path flags) (Joint.vfsOpen fat files o path flags) := by
  rw [Fs.vfsOpen, Joint.vfsOpen, h.resolve]
  cases Fs.vfsResolvePath s path with
  | crash => rfl
  | node n => exact h.openNode n flags
  | null =>
    simp only [ofResolved]
    split
    · exact .some _ h
    · have hcreate := h.createAt fat (fun s parent name => ramfsCreate s parent name vfsFile) vfsFile
        (fun _ _ _ => rfl) path
      rw [Fs.vfsCreate, Joint.vfsCreate]
      cases hout : Fs.createAt (fun s parent name => ramfsCreate s parent name vfsFile) s path with
      | none =>
        rw [hout] at hcreate
        rw [Option.map_eq_none_iff.mp hcreate]
        rfl
      | some out =>
        obtain ⟨r, s'⟩ := out
        rw [hout] at hcreate
        obtain ⟨o', heq, ho'⟩ := hcreate
        obtain ⟨⟨r', tree⟩, htree, hpair⟩ := Option.map_eq_some_iff.mp heq
        obtain ⟨rfl, rfl⟩ := Prod.mk.inj hpair
        rw [htree]
        simp only
        split
        · exact .some _ ho'
        · have hres := ho'.resolve fat path
          simp only at hres
          rw [hres]
          cases Fs.vfsResolvePath s' path with
          | crash => rfl
          | null => exact .some _ ho'
          | node n => exact ho'.openNode n flags

theorem vfsClose (h : Embeds s o) (fd : ℤ) :
    Agree (some (Fs.vfsClose s fd)) (some (Joint.vfsClose files o fd)) := by
  rw [Fs.vfsClose, Joint.vfsClose, h.liveFd]
  cases Fs.liveFd s fd with
  | none => exact .some _ h
  | some live =>
    obtain ⟨i, file⟩ := live
    simp only [Option.map_some, ofFile]
    split
    · -- a node of ramfs has no `close`
      cases file.node with
      | none => exact .some _ (h.setFd i { file with node := none, refcount := file.refcount - 1 })
      | some n => exact .some _ (h.setFd i { file with node := none, refcount := file.refcount - 1 })
    · exact .some _ (h.setFd i { file with refcount := file.refcount - 1 })

theorem advance (file : FileDescriptor) (n : ℤ) :
    Joint.advance (ofFile file : Descriptor γ) n = ofFile (Fs.advance file n) := by
  simp only [Joint.advance, Fs.advance]
  split
  · rfl
  · rfl

/-- Storing the entry that is there changes nothing. -/
theorem setFd_live (h : Embeds s o) {fd : ℤ} {i : ℕ} {file : FileDescriptor}
    (hlive : Fs.liveFd s fd = some (i, file)) : Embeds s (o.setFd i (ofFile file)) := by
  have hfile : s.gFds i = file := by
    unfold Fs.liveFd at hlive
    split at hlive
    · cases hlive
    · obtain ⟨rfl, rfl⟩ := Prod.mk.inj (Option.some.inj hlive)
      rfl
  have hself : s.setFd i file = s := by
    rw [Vfs.setFd, ← hfile, Function.update_eq_self]
  have hset := h.setFd i file
  rwa [hself] at hset

variable (files) in
theorem vfsRead (h : Embeds s o) (fd : ℤ) (count : UInt64) :
    Agree ((Fs.vfsRead s fd count).map fun out => ((out.1, out.2.1), out.2.2))
      ((Joint.vfsRead files o fd count).map fun out => ((out.1, out.2.1), out.2.2)) := by
  rw [Fs.vfsRead, Joint.vfsRead, h.liveFd]
  cases hlive : Fs.liveFd s fd with
  | none => exact .some _ h
  | some live =>
    obtain ⟨i, file⟩ := live
    simp only [Option.map_some, ofFile]
    cases hnode : file.node with
    | none => exact .some _ h
    | some n =>
      simp only [Option.map_some, Option.bind_some, nodeRead, h.node]
      cases (s.ramfsNodePool n).ops with
      | none =>
        have hset := h.setFd_live hlive
        rw [ofFile, hnode] at hset
        exact .some _ hset
      | some kind =>
        cases kind
        obtain ⟨t, ht⟩ := h.pools
        simp only [ht, ramfsRead_withTables]
        cases ramfsRead s (some n) file.offset count.toUInt32 with
        | none => rfl
        | some out =>
          have hset := h.setFd i (Fs.advance file out.1)
          rw [← advance, ofFile, hnode] at hset
          exact .some _ hset

theorem vfsWrite (h : Embeds s o) (fd : ℤ) (buffer : ℕ → UInt8) (count : UInt64) :
    Agree (Fs.vfsWrite answers s fd buffer count)
      (Joint.vfsWrite files answers o fd buffer count) := by
  rw [Fs.vfsWrite, Joint.vfsWrite, h.liveFd]
  cases hlive : Fs.liveFd s fd with
  | none => exact .some _ h
  | some live =>
    obtain ⟨i, file⟩ := live
    simp only [Option.map_some, ofFile]
    cases hnode : file.node with
    | none => exact .some _ h
    | some n =>
      simp only [Option.map_some, Option.bind_some, nodeWrite, h.node]
      cases (s.ramfsNodePool n).ops with
      | none =>
        have hset := h.setFd_live hlive
        rw [ofFile, hnode] at hset
        exact .some _ hset
      | some kind =>
        cases kind
        obtain ⟨t, ht⟩ := h.pools
        have hself := ramfsWrite_withTables s s answers (some n) file.offset count.toUInt32 buffer
        simp only [ht, ramfsWrite_withTables]
        cases hwrite : ramfsWrite answers s (some n) file.offset count.toUInt32 buffer with
        | none => rfl
        | some out =>
          have hsame : ramfsWrite answers (s.withTables s) (some n) file.offset count.toUInt32
              buffer = some out := hwrite
          rw [hsame, hwrite] at hself
          have htables := congrArg Prod.snd (Option.some.inj hself)
          have hset := (h.setRamfs htables.symm ⟨t, rfl⟩).setFd i (Fs.advance file out.1)
          rw [← advance, ofFile, hnode] at hset
          exact .some _ hset

theorem vfsSeek (h : Embeds s o) (fd : ℤ) (offset : UInt64) (whence : ℤ) :
    Agree (some (Fs.vfsSeek s fd offset whence)) (some (Joint.vfsSeek files o fd offset whence)) := by
  rw [Fs.vfsSeek, Joint.vfsSeek, h.liveFd]
  cases Fs.liveFd s fd with
  | none => exact .some _ h
  | some live =>
    obtain ⟨i, file⟩ := live
    simp only [Option.map_some, ofFile]
    split
    · exact .some _ (h.setFd i { file with offset := offset })
    · split
      · exact .some _ (h.setFd i { file with offset := file.offset + offset })
      · split
        · cases hnode : file.node with
          | none => exact .some _ h
          | some n =>
            have hsize : nodeSize files o (.ramfs n) = (s.ramfsNodePool n).size :=
              congrArg Node.size (h.node n)
            have hset := h.setFd i
              { file with offset := (s.ramfsNodePool n).size.toUInt64 + offset }
            rw [ofFile, hnode] at hset
            simp only [Option.map_some, hsize]
            exact .some _ hset
        · exact .some _ h

theorem vfsReaddir (h : Embeds s o) (fd : ℤ) :
    Agree (some (((Fs.vfsReaddir s fd).1, (Fs.vfsReaddir s fd).2.1), (Fs.vfsReaddir s fd).2.2))
      (some (((Joint.vfsReaddir files o fd).1, (Joint.vfsReaddir files o fd).2.1),
        (Joint.vfsReaddir files o fd).2.2)) := by
  rw [Fs.vfsReaddir, Joint.vfsReaddir, h.liveFd]
  cases Fs.liveFd s fd with
  | none => exact .some _ h
  | some live =>
    obtain ⟨i, file⟩ := live
    simp only [Option.map_some, ofFile]
    cases hnode : file.node with
    | none => exact .some _ h
    | some n =>
      obtain ⟨t, ht⟩ := h.pools
      have hread (index : UInt32) :
          ramfsReaddir o.tree.ramfs n index = ramfsReaddir s n index := by
        rw [ht]
        rfl
      simp only [Option.map_some, Option.bind_some, nodeReaddir, h.node, hread]
      cases (s.ramfsNodePool n).ops with
      | none => exact .some _ h
      | some kind =>
        cases kind
        simp only [Option.map_some, Option.bind_some]
        cases ramfsReaddir s n file.offset.toUInt32 with
        | none => exact .some _ h
        | some child =>
          have hset := h.setFd i { file with offset := file.offset + 1 }
          rw [ofFile, hnode] at hset
          exact .some _ hset

/-! ### Mounting -/

theorem setMount (h : Embeds s o) (i : ℕ) (mp : Mount) :
    Embeds (s.setMount i mp) { o with tree := o.tree.setMount i (ofMount mp) } where
  pools := h.pools
  mounts j := by
    by_cases hj : j = i
    · subst hj
      simp [Vfs.setMount, State.setMount]
    · simp [Vfs.setMount, State.setMount, hj, h.mounts]
  count := h.count
  root := h.root
  fds := h.fds
  types := h.types

/-- The next entry of the mount table, before it has a root. -/
def newEntry (path : Str) : MountPoint γ := { path := path.take 255, root := none, refcount := 0 }

variable (fat) in
theorem mountRoot (h : Embeds s o) (path : Str) (device : Option Str) :
    ∃ r, (∃ t, r = (addNode s (newNode s [slash] vfsDirectory)).withTables t) ∧
      Joint.mountRoot fat (o.tree.setMount s.gMountCount (newEntry path)) device s.gMountCount
        .ramfs =
        if s.ramfsNodeCount ≥ maxRamfsNodes then none
        else some (.ramfs s.ramfsNodeCount,
          { o.tree.setMount s.gMountCount (newEntry path) with ramfs := r }) := by
  obtain ⟨t, ht⟩ := h.pools
  have hramfs : (o.tree.setMount s.gMountCount (newEntry path)).ramfs = s.withTables t := ht
  refine ⟨_, ⟨t.setMount s.gMountCount { t.gMounts s.gMountCount with
    root := some s.ramfsNodeCount }, rfl⟩, ?_⟩
  simp only [Joint.mountRoot, hramfs, ramfsMountOp_withTables]
  by_cases hroom : s.ramfsNodeCount ≥ maxRamfsNodes
  · simp only [if_pos hroom]
    rfl
  · have hroot : (((addNode s (newNode s [slash] vfsDirectory)).withTables (t.setMount
        s.gMountCount { t.gMounts s.gMountCount with root := some s.ramfsNodeCount })).gMounts
          s.gMountCount).root = some s.ramfsNodeCount := by
      simp [Vfs.withTables, Vfs.setMount]
    simp only [if_neg hroom, hroot]
    rfl

/-- The state in which `vfs_mount` looks for its mount point. -/
theorem allocRoot (h : Embeds s o) (path : Str) {r : Vfs}
    (hr : ∃ t, r = (addNode s (newNode s [slash] vfsDirectory)).withTables t) :
    Embeds (Fs.allocRoot s path) { o with
      tree := { o.tree.setMount s.gMountCount (newEntry path) with ramfs := r }.setMount
        s.gMountCount { (newEntry path : MountPoint γ) with
          root := some (.ramfs s.ramfsNodeCount) } } := by
  have hnode : Embeds (addNode s (newNode s [slash] vfsDirectory))
      { o with tree := { o.tree with ramfs := r } } := h.setRamfs rfl hr
  have hset := hnode.setMount s.gMountCount ⟨path.take 255, some s.ramfsNodeCount, 0⟩
  have htwice : { o.tree.setMount s.gMountCount (newEntry path) with ramfs := r }.setMount
      s.gMountCount { (newEntry path : MountPoint γ) with
        root := some (.ramfs s.ramfsNodeCount) } =
      { o.tree with ramfs := r }.setMount s.gMountCount
        (ofMount ⟨path.take 255, some s.ramfsNodeCount, 0⟩) := by
    simp [State.setMount, newEntry, ofMount]
  rw [htwice]
  exact hset

theorem linkMount (h : Embeds s o) (d mp : ℕ) :
    Embeds (Fs.linkMount s d mp) { o with tree := Joint.linkMount o.tree mp (.ramfs d) } := by
  obtain ⟨t, ht⟩ := h.pools
  refine h.setRamfs rfl ⟨t, ?_⟩
  rw [ht]
  rfl

theorem setCount (h : Embeds s o) (c : ℕ) :
    Embeds { s with gMountCount := c } { o with tree := { o.tree with gMountCount := c } } where
  pools := h.pools
  mounts := h.mounts
  count := rfl
  root := h.root
  fds := h.fds
  types := h.types

theorem setRoot (h : Embeds s o) (n : ℕ) :
    Embeds { s with gVfsRoot := some n }
      { o with tree := { o.tree with gVfsRoot := some (.ramfs n) } } where
  pools := h.pools
  mounts := h.mounts
  count := h.count
  root := rfl
  fds := h.fds
  types := h.types

variable (fat) in
theorem vfsMount (h : Embeds s o) {fstype : Str} (hfstype : fstype ∉ otherTypes) (path : Str)
    (device : Option Str) :
    Agree (Fs.vfsMount s path fstype)
      ((Joint.vfsMount fat o.tree path fstype device).map fun out =>
        (out.1, { o with tree := out.2 })) := by
  have htypes := h.types fstype hfstype
  rw [Fs.vfsMount, Joint.vfsMount, h.count]
  by_cases hfull : s.gMountCount ≥ maxMounts
  · rw [if_pos hfull, if_pos hfull]
    exact .some _ h
  rw [if_neg hfull, if_neg hfull]
  cases hjoint : findFsType o.tree fstype with
  | none =>
    rw [hjoint] at htypes
    rw [Option.map_eq_none_iff.mp htypes.symm]
    exact .some _ h
  | some fs =>
    rw [hjoint] at htypes
    obtain ⟨fs', hfs', hdriver⟩ := Option.map_eq_some_iff.mp htypes.symm
    rw [hfs']
    obtain ⟨r, hr, hmount⟩ := h.mountRoot fat path device
    have halloc := h.allocRoot path hr
    rw [newEntry] at hmount halloc
    simp only [ramfsMountOp_eq, ← hdriver, hmount]
    by_cases hroom : s.ramfsNodeCount ≥ maxRamfsNodes
    · simp only [if_pos hroom]
      exact .some _ (h.setMount s.gMountCount ⟨path.take 255, none, 0⟩)
    · have hroot : ((Fs.allocRoot s path).gMounts s.gMountCount).root = some s.ramfsNodeCount := by
        simp [Fs.allocRoot, Vfs.setMount]
      simp only [if_neg hroom, hroot, ne_eq, not_true_eq_false, if_false]
      by_cases hpath : path = [slash]
      · simp only [if_pos hpath, Option.map_some]
        exact .some _ (((halloc.setRoot s.ramfsNodeCount).linkMount s.ramfsNodeCount
          s.gMountCount).setCount (s.gMountCount + 1))
      · have hres := halloc.resolve fat path
        simp only at hres
        simp only [if_neg hpath, hres]
        cases Fs.vfsResolvePath (Fs.allocRoot s path) path with
        | crash => rfl
        | null => exact .some _ halloc
        | node d =>
          have hdir := halloc.isDir fat d
          simp only at hdir
          simp only [ofResolved, hdir]
          split
          · exact .some _ halloc
          · exact .some _ ((halloc.linkMount d s.gMountCount).setCount (s.gMountCount + 1))

end Embeds

/-- Nothing but ramfs is mounted. -/
def OnlyRamfs : VfsCall → Prop
  | .mount _ fstype => fstype ∉ otherTypes
  | _ => True

variable (fat files answers) in
theorem vfsCall_agree (h : Embeds s o) {c : VfsCall} (hc : OnlyRamfs c) :
    Agree (Fs.vfsCall answers s c) (Joint.vfsCall fat files answers o c) := by
  cases c with
  | mount path fstype =>
    have hmount := (h.vfsMount fat hc path none).map VfsReply.ofValue
    rw [Option.map_map] at hmount
    exact hmount
  | mkdir path =>
    have hmade := (h.createAt fat ramfsMkdirOp vfsDirectory
      (fun _ _ _ => rfl) path).map VfsReply.ofValue
    rw [Option.map_map] at hmade
    exact hmade
  | create path =>
    have hmade := (h.createAt fat
      (fun s parent name => ramfsCreate s parent name vfsFile) vfsFile (fun _ _ _ => rfl) path).map VfsReply.ofValue
    rw [Option.map_map] at hmade
    exact hmade
  | «open» path flags => exact (h.vfsOpen path flags).map VfsReply.ofValue
  | close fd => exact (h.vfsClose fd).map VfsReply.ofValue
  | read fd count =>
    have hread := (h.vfsRead files fd count).map
      fun out => (⟨out.1, out.2, none⟩ : VfsReply)
    rw [Option.map_map, Option.map_map] at hread
    exact hread
  | write fd buffer count => exact (h.vfsWrite fd buffer count).map VfsReply.ofValue
  | seek fd offset whence => exact (h.vfsSeek fd offset whence).map VfsReply.ofValue
  | readdir fd => exact (h.vfsReaddir fd).map fun out => (⟨out.1, [], out.2⟩ : VfsReply)

/-- The registered file systems do not change. -/
theorem embeds_ofVfs (frames : UInt64 → ℕ → UInt8) (htypes : s.gFsTypes = (vfsInit frames).gFsTypes)
    (disk : δ) : Embeds s (ofVfs s disk : Os δ υ γ) where
  pools := ⟨s, rfl⟩
  mounts _ := rfl
  count := rfl
  root := rfl
  fds _ := rfl
  types name hname := by
    obtain ⟨hfat, hdevfs, hprocfs⟩ : name ≠ str "fat32" ∧ name ≠ str "DeviceFS" ∧
        name ≠ str "ProcessFS" := by simpa [otherTypes] using hname
    by_cases hramfs : str "ramfs" = name
    · simp [findFsType, Fs.findFsType, ofVfs, init, htypes, vfsInit, hfat.symm, hdevfs.symm,
        hprocfs.symm, hramfs]
    · simp [findFsType, Fs.findFsType, ofVfs, init, htypes, vfsInit, hfat.symm, hdevfs.symm,
        hprocfs.symm, hramfs]

/-- The machine after the file systems are registered. -/
def start (frames : UInt64 → ℕ → UInt8) (disk : δ) : Os δ υ γ where
  tree := init frames [] [] disk
  gFds _ := ⟨none, 0, 0, 0⟩
  procfsContent := []

variable (fat files answers) in
/-- The replies to a sequence of calls, up to a crash. -/
def replies : Os δ υ γ → List VfsCall → List (Option VfsReply)
  | _, [] => []
  | o, c :: cs =>
    match vfsCall fat files answers o c with
    | none => [none]
    | some (reply, o') => some reply :: replies o' cs

theorem Embeds.replies (h : Embeds s o) {calls : List VfsCall} (hcalls : ∀ c ∈ calls, OnlyRamfs c) :
    Joint.replies fat files answers o calls = Fs.replies answers s calls := by
  induction calls generalizing s o with
  | nil => rfl
  | cons c cs ih =>
    obtain ⟨hc, hcs⟩ := List.forall_mem_cons.mp hcalls
    have hagree := vfsCall_agree fat files answers h hc
    rw [Joint.replies, Fs.replies]
    cases hcall : Fs.vfsCall answers s c with
    | none =>
      rw [hcall] at hagree
      rw [show Joint.vfsCall fat files answers o c = none from hagree]
    | some out =>
      obtain ⟨reply, s'⟩ := out
      rw [hcall] at hagree
      obtain ⟨o', heq, ho'⟩ := hagree
      rw [heq]
      exact congrArg (some reply :: ·) (ih ho' hcs)

/-- From the start of the machine on and as long as only ramfs is mounted, every sequence of calls
over all file systems gets the replies that the tables of ramfs alone give. -/
theorem replies_onlyRamfs (fat : Fat32Ops δ υ γ) (files : Fat32Files δ υ γ)
    (answers : ℕ → UInt64) (frames : UInt64 → ℕ → UInt8) (disk : δ) {calls : List VfsCall}
    (hcalls : ∀ c ∈ calls, OnlyRamfs c) :
    replies fat files answers (start frames disk) calls =
      Fs.replies answers (vfsInit frames) calls := by
  have hstart : Embeds (vfsInit frames) (start frames disk : Os δ υ γ) :=
    embeds_ofVfs frames rfl disk
  exact hstart.replies hcalls

/-- A disk without a file. -/
def noFiles : Fat32Files Unit Unit Unit where
  size _ := 0
  openFile _ _ _ _ := -1
  closeFile _ _ _ := ((), ())
  read _ _ _ _ _ := some (-1, [])
  write _ _ _ _ _ _ := some (-1, (), ())
  readdir _ _ _ _ := none

/-- A file that is written and read back. -/
def writeThenRead : List VfsCall :=
  [.mount (str "/") (str "ramfs"), .open (str "/f") oCreat, .write 3 (fun _ => 0x41) 2,
    .seek 3 0 0, .read 3 2]

theorem replies_onlyRamfs_file :
    replies noDisk noFiles answers₁ (start (fun _ _ => 0) ()) writeThenRead =
      Fs.replies answers₁ (vfsInit fun _ _ => 0) writeThenRead := by
  apply replies_onlyRamfs
  have hramfs : str "ramfs" ∉ otherTypes := by decide +kernel
  simp [writeThenRead, OnlyRamfs, hramfs]

end Joint

end Rhoudveine.Fs
