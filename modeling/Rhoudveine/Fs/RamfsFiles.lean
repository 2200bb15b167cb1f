import Rhoudveine.Fs.Calls
import Rhoudveine.Fs.Descriptors

/-!
# Descriptors of ramfs files

ramfs as the file system behind the descriptors.  The calls of the whole VFS are those of the
descriptor table over it.
-/

namespace Rhoudveine.Fs
open Descriptors (FileOps Descriptor)

variable {answers : ℕ → UInt64} {s s' : Vfs}

def FileDescriptor.generic (file : FileDescriptor) : Descriptor ℕ :=
  ⟨file.node, file.offset, file.flags, file.refcount⟩

/-- The state without its descriptors. -/
def Vfs.files (s : Vfs) : Vfs := { s with gFds := fun _ => ⟨none, 0, 0, 0⟩ }

/-- The entry that `vfs_readdir` makes of a node. -/
def direntOf (s : Vfs) (child : ℕ) : Dirent :=
  let c := s.ramfsNodePool child
  ⟨c.inode, c.name.take 255, c.flags⟩

/-- The pointer that `vfs_resolve_path` returns, unless it crashes. -/
def Resolved.pointer : Resolved → Option (Option ℕ)
  | .crash => none
  | .null => some none
  | .node n => some (some n)

def ramfsOps (answers : ℕ → UInt64) : FileOps Vfs ℕ where
  resolvePath s path := (vfsResolvePath s path).pointer.map fun p => (p, s)
  create s path := vfsCreate s path
  size s n := (s.ramfsNodePool n).size
  openOp _ _ := none
  closeOp _ _ := none
  readOp s n := (s.ramfsNodePool n).ops.map fun _ offset size =>
    (ramfsRead s (some n) offset size).map fun out => (out.1, out.2, s)
  writeOp s n := (s.ramfsNodePool n).ops.map fun _ offset size data =>
    ramfsWrite answers s (some n) offset size data
  readdirOp s n := (s.ramfsNodePool n).ops.map fun _ index =>
    some ((ramfsReaddir s n index).map (direntOf s), s)

def Descriptors.ofVfs (s : Vfs) : Descriptors.State Vfs ℕ :=
  ⟨s.files, fun i => (s.gFds i).generic⟩

/-! ## Nothing but descriptor calls looks at the table -/

theorem files_resolvePath (s : Vfs) (path : Str) :
    vfsResolvePath s.files path = vfsResolvePath s path := by
  have halike : Alike s s.files fun _ => True := {
    ops := fun _ _ => rfl
    find := fun _ _ _ => rfl
    follow := fun _ _ _ _ _ => ⟨rfl, fun _ _ => trivial⟩ }
  exact halike.resolvePath rfl (fun _ _ => trivial) path

theorem files_ramfsCreate (s : Vfs) (parent : ℕ) (name : Str) (flags : UInt32) :
    ramfsCreate s.files parent name flags =
      ((ramfsCreate s parent name flags).1, (ramfsCreate s parent name flags).2.files) := by
  have hpool : s.files.ramfsNodePool = s.ramfsNodePool := rfl
  have hblocks : s.files.ramfsDataPool = s.ramfsDataPool := rfl
  have hcount : s.files.ramfsNodeCount = s.ramfsNodeCount := rfl
  unfold ramfsCreate ramfsAllocNode
  rw [hpool, hblocks, hcount]
  dsimp only
  by_cases hdir : (s.ramfsNodePool parent).isDir
  · simp only [if_neg (not_not.mpr hdir)]
    cases hdata : (s.ramfsNodePool parent).fsData with
    | null => rfl
    | file k => rfl
    | dir d =>
      dsimp only
      cases Search.firstSome (fun i => if (s.ramfsDataPool d).children i = none then some i
          else none) ramfsMaxChildren 0 with
      | none => rfl
      | some slot =>
        by_cases hroom : s.ramfsNodeCount ≥ maxRamfsNodes
        · simp only [if_pos hroom]
        · simp only [if_neg hroom]
          rfl
  · simp only [if_pos hdir]

theorem files_createAt {op : Vfs → ℕ → Str → ℤ × Vfs} {flags : UInt32}
    (hop : ∀ s parent name, op s parent name = ramfsCreate s parent name flags) (s : Vfs)
    (path : Str) :
    createAt op s.files path = (createAt op s path).map fun out => (out.1, out.2.files) := by
  unfold createAt
  rw [files_resolvePath]
  cases vfsResolvePath s (vfsDirname path) with
  | crash => rfl
  | null => rfl
  | node parent =>
    have hpool : s.files.ramfsNodePool = s.ramfsNodePool := rfl
    dsimp only
    rw [hpool]
    cases (s.ramfsNodePool parent).ops with
    | none => rfl
    | some kind =>
      cases kind
      dsimp only
      rw [hop, hop, files_ramfsCreate]
      rfl

theorem files_raiseSize (s : Vfs) (n : ℕ) (last : UInt64) :
    raiseSize s.files n last = (raiseSize s n last).files := by
  have hpool : s.files.ramfsNodePool = s.ramfsNodePool := rfl
  unfold raiseSize
  dsimp only
  rw [hpool]
  split <;> rfl

theorem files_writeFile (s : Vfs) (n k : ℕ) (offset : UInt64) (size : UInt32) (data : ℕ → UInt8) :
    writeFile answers s.files n k offset size data =
      (writeFile answers s n k offset size data).map fun out => (out.1, out.2.files) := by
  have hblocks : s.files.fileDataPool = s.fileDataPool := rfl
  have hallocs : s.files.allocs = s.allocs := rfl
  unfold writeFile
  dsimp only
  rw [hblocks, hallocs]
  cases allocPages answers (endPage offset size) maxFilePages (s.fileDataPool k).numPages
      (s.fileDataPool k) s.allocs with
  | mk ok rest =>
    obtain ⟨file, allocs⟩ := rest
    cases ok with
    | false => rfl
    | true =>
      dsimp only
      generalize (if endPage offset size ≥ file.numPages then
        { file with numPages := endPage offset size + 1 } else file) = file'
      unfold storeBytes
      dsimp only
      have hframes : s.files.frames = s.frames := rfl
      simp only [Vfs.setFile, Function.update_self, hframes]
      cases writeLoop file' data size.toNat 0 size offset s.frames with
      | none => rfl
      | some out =>
        dsimp only
        rw [Option.map_some, ← files_raiseSize]
        rfl

theorem files_ramfsWrite (s : Vfs) (n : ℕ) (offset : UInt64) (size : UInt32) (data : ℕ → UInt8) :
    ramfsWrite answers s.files (some n) offset size data =
      (ramfsWrite answers s (some n) offset size data).map fun out => (out.1, out.2.files) := by
  have hpool : s.files.ramfsNodePool = s.ramfsNodePool := rfl
  have hcount : s.files.fileDataCount = s.fileDataCount := rfl
  unfold ramfsWrite
  dsimp only
  rw [hpool]
  by_cases hdir : (s.ramfsNodePool n).isDir
  · simp only [if_pos hdir]
    rfl
  · simp only [if_neg hdir]
    have hnew (fsData : FsData) (hfile : ∀ k, fsData ≠ .file k) :
        ensureFileData s.files n fsData =
          (ensureFileData s n fsData).map fun out => (out.1, out.2.files) := by
      unfold ensureFileData
      rw [hcount]
      cases fsData with
      | file k => exact absurd rfl (hfile k)
      | null => dsimp only; split <;> rfl
      | dir d => dsimp only; split <;> rfl
    cases hdata : (s.ramfsNodePool n).fsData with
    | file k => exact files_writeFile s n k offset size data
    | null =>
      rw [hnew .null (by simp)]
      cases ensureFileData s n .null with
      | none => rfl
      | some out => exact files_writeFile out.2 n out.1 offset size data
    | dir d =>
      rw [hnew (.dir d) (by simp)]
      cases ensureFileData s n (.dir d) with
      | none => rfl
      | some out => exact files_writeFile out.2 n out.1 offset size data

/-! ## The calls -/

/-- The call of the VFS. -/
def Descriptors.FdCall.vfs : Descriptors.FdCall → VfsCall
  | .open path flags => .open path flags
  | .close fd => .close fd
  | .read fd count => .read fd count
  | .write fd buffer count => .write fd buffer count
  | .seek fd offset whence => .seek fd offset whence
  | .readdir fd => .readdir fd

theorem generic_liveFd (s : Vfs) (fd : ℤ) :
    Descriptors.liveFd (Descriptors.ofVfs s) fd = (liveFd s fd).map fun out => (out.1, out.2.generic) := by
  unfold Descriptors.liveFd liveFd
  have hcount : ((Descriptors.ofVfs s).gFds fd.toNat).refcount = (s.gFds fd.toNat).refcount := rfl
  rw [hcount]
  split <;> rfl

theorem generic_freeFd (s : Vfs) : Descriptors.freeFd (Descriptors.ofVfs s) = freeFd s := rfl

theorem generic_setFd (s t : Vfs) (ht : t.gFds = s.gFds) (i : ℕ) (file : FileDescriptor) :
    ({ Descriptors.ofVfs s with files := t.files } : Descriptors.State Vfs ℕ).setFd i file.generic =
      Descriptors.ofVfs (t.setFd i file) := by
  have htable : Function.update (fun i => (s.gFds i).generic) i file.generic =
      fun j => (Function.update t.gFds i file j).generic := by
    rw [ht]
    exact (Function.comp_update FileDescriptor.generic s.gFds i file).symm
  unfold Descriptors.State.setFd Descriptors.ofVfs
  dsimp only
  rw [htable]
  rfl

theorem generic_advance (file : FileDescriptor) (n : ℤ) :
    Descriptors.advance file.generic n = (advance file n).generic := by
  unfold Descriptors.advance advance
  split <;> rfl

theorem generic_openNode {t : Vfs} (ht : t.gFds = s.gFds) (n : ℕ) (flags : UInt32) :
    Descriptors.openNode (ramfsOps answers) (Descriptors.ofVfs s) t.files n flags =
      some ((openNode t n flags).1, Descriptors.ofVfs (openNode t n flags).2) := by
  have hfree : freeFd t = freeFd s := by
    unfold freeFd
    rw [ht]
  unfold Descriptors.openNode openNode
  rw [hfree, generic_freeFd]
  cases freeFd s with
  | none =>
    unfold Descriptors.ofVfs
    rw [ht]
  | some fd =>
    have hset := generic_setFd s t ht fd ⟨some n,
      if flags &&& oAppend ≠ 0 then (t.ramfsNodePool n).size.toUInt64 else 0, flags, 1⟩
    exact congrArg (fun st => some ((fd : ℤ), st)) hset

theorem createAt_gFds {op : Vfs → ℕ → Str → ℤ × Vfs} {flags : UInt32}
    (hop : ∀ s parent name, op s parent name = ramfsCreate s parent name flags) {path : Str} {r : ℤ}
    (h : createAt op s path = some (r, s')) : s'.gFds = s.gFds := by
  rcases createAt_cases hop h with ⟨-, rfl⟩ | ⟨-, parent, -, hc⟩
  · rfl
  · obtain ⟨-, -, -, -, -, -⟩ := hc
    rfl

theorem generic_resolvePath (t : Vfs) (path : Str) :
    (ramfsOps answers).resolvePath t.files path =
      (vfsResolvePath t path).pointer.map fun p => (p, t.files) := by
  rw [← files_resolvePath]
  rfl

theorem generic_vfsOpen (s : Vfs) (path : Str) (flags : UInt32) :
    Descriptors.vfsOpen (ramfsOps answers) (Descriptors.ofVfs s) path flags =
      (vfsOpen s path flags).map fun out => (out.1, Descriptors.ofVfs out.2) := by
  have hfiles : (Descriptors.ofVfs s).files = s.files := rfl
  unfold Descriptors.vfsOpen Descriptors.findNode vfsOpen
  rw [hfiles, generic_resolvePath]
  cases hres : vfsResolvePath s path with
  | crash => rfl
  | node n => exact generic_openNode rfl n flags
  | null =>
    simp only [Resolved.pointer, Option.map_some]
    by_cases hflags : flags &&& oCreat = 0
    · simp only [if_pos hflags]
      rfl
    · simp only [if_neg hflags]
      have hcreate : (ramfsOps answers).create s.files path =
          (vfsCreate s path).map fun out => (out.1, out.2.files) :=
        files_createAt (fun _ _ _ => rfl) s path
      rw [hcreate]
      cases hmade : vfsCreate s path with
      | none => rfl
      | some out =>
        obtain ⟨r, t⟩ := out
        have ht : t.gFds = s.gFds := createAt_gFds (fun _ _ _ => rfl) hmade
        have hsame : ({ Descriptors.ofVfs s with files := t.files } : Descriptors.State Vfs ℕ) =
            Descriptors.ofVfs t := by
          unfold Descriptors.ofVfs
          rw [ht]
        simp only [Option.map_some]
        by_cases hr : r ≠ 0
        · simp only [if_pos hr, Option.map_some]
          rw [hsame]
        · simp only [if_neg hr]
          rw [generic_resolvePath]
          cases vfsResolvePath t path with
          | crash => rfl
          | null =>
            simp only [Resolved.pointer, Option.map_some]
            rw [hsame]
          | node n => exact generic_openNode ht n flags

theorem generic_vfsClose (s : Vfs) (fd : ℤ) :
    Descriptors.vfsClose (ramfsOps answers) (Descriptors.ofVfs s) fd =
      some ((vfsClose s fd).1, Descriptors.ofVfs (vfsClose s fd).2) := by
  unfold Descriptors.vfsClose vfsClose
  rw [generic_liveFd]
  cases liveFd s fd with
  | none => rfl
  | some out =>
    obtain ⟨i, file⟩ := out
    have hclose : Descriptors.callClose (ramfsOps answers) (Descriptors.ofVfs s).files
        file.generic.node = some s.files := by
      have hnone : file.generic.node.bind
          ((ramfsOps answers).closeOp (Descriptors.ofVfs s).files) = none := by
        cases file.generic.node <;> rfl
      unfold Descriptors.callClose
      rw [hnone]
      rfl
    simp only [Option.map_some]
    by_cases hzero : file.refcount - 1 = 0
    · have hzero' : file.generic.refcount - 1 = 0 := hzero
      have hset := generic_setFd s s rfl i ⟨none, file.offset, file.flags, file.refcount - 1⟩
      rw [if_pos hzero, if_pos hzero', hclose]
      exact congrArg (fun st => some ((0 : ℤ), st)) hset
    · have hzero' : ¬ file.generic.refcount - 1 = 0 := hzero
      have hset := generic_setFd s s rfl i { file with refcount := file.refcount - 1 }
      rw [if_neg hzero, if_neg hzero']
      exact congrArg (fun st => some ((0 : ℤ), st)) hset

theorem generic_vfsRead (s : Vfs) (fd : ℤ) (count : UInt64) :
    Descriptors.vfsRead (ramfsOps answers) (Descriptors.ofVfs s) fd count =
      (vfsRead s fd count).map fun out => (out.1, out.2.1, Descriptors.ofVfs out.2.2) := by
  unfold Descriptors.vfsRead vfsRead
  rw [generic_liveFd]
  cases liveFd s fd with
  | none => rfl
  | some out =>
    obtain ⟨i, file⟩ := out
    have hnode : file.generic.node = file.node := rfl
    simp only [Option.map_some, hnode]
    cases hn : file.node with
    | none => rfl
    | some n =>
      have hops : (s.files.ramfsNodePool n).ops = (s.ramfsNodePool n).ops := rfl
      simp only [Option.bind_some, ramfsOps, Descriptors.ofVfs, hops]
      cases (s.ramfsNodePool n).ops with
      | none => rfl
      | some kind =>
        cases kind
        have hread : ramfsRead s.files (some n) = ramfsRead s (some n) := rfl
        have hoffset : file.generic.offset = file.offset := rfl
        simp only [Option.map_some, hread, hoffset]
        cases ramfsRead s (some n) file.offset count.toUInt32 with
        | none => rfl
        | some out =>
          have hset := generic_setFd s s rfl i (advance file out.1)
          rw [← generic_advance] at hset
          simp only [Option.map_some]
          exact congrArg (fun st => some (out.1, out.2, st)) hset

theorem generic_vfsWrite (s : Vfs) (fd : ℤ) (buffer : ℕ → UInt8) (count : UInt64) :
    Descriptors.vfsWrite (ramfsOps answers) (Descriptors.ofVfs s) fd buffer count =
      (vfsWrite answers s fd buffer count).map fun out => (out.1, Descriptors.ofVfs out.2) := by
  unfold Descriptors.vfsWrite vfsWrite
  rw [generic_liveFd]
  cases liveFd s fd with
  | none => rfl
  | some out =>
    obtain ⟨i, file⟩ := out
    have hnode : file.generic.node = file.node := rfl
    simp only [Option.map_some, hnode]
    cases hn : file.node with
    | none => rfl
    | some n =>
      have hops : (s.files.ramfsNodePool n).ops = (s.ramfsNodePool n).ops := rfl
      simp only [Option.bind_some, ramfsOps, Descriptors.ofVfs, hops]
      cases (s.ramfsNodePool n).ops with
      | none => rfl
      | some kind =>
        cases kind
        have hoffset : file.generic.offset = file.offset := rfl
        simp only [Option.map_some, files_ramfsWrite, hoffset]
        cases hwrite : ramfsWrite answers s (some n) file.offset count.toUInt32 buffer with
        | none => rfl
        | some out =>
          obtain ⟨r, t⟩ := out
          have ht : t.gFds = s.gFds := by
            rcases ramfsWrite_refilled hwrite with hsame | ⟨-, -, hnew⟩
            · exact hsame.fds
            · exact hnew.fds
          have hset := generic_setFd s t ht i (advance file r)
          rw [← generic_advance] at hset
          simp only [Option.map_some]
          exact congrArg (fun st => some (r, st)) hset

theorem generic_vfsSeek (s : Vfs) (fd : ℤ) (offset : UInt64) (whence : ℤ) :
    Descriptors.vfsSeek (ramfsOps answers) (Descriptors.ofVfs s) fd offset whence =
      ((vfsSeek s fd offset whence).1, Descriptors.ofVfs (vfsSeek s fd offset whence).2) := by
  unfold Descriptors.vfsSeek vfsSeek
  rw [generic_liveFd]
  cases liveFd s fd with
  | none => rfl
  | some out =>
    obtain ⟨i, file⟩ := out
    have hnode : file.generic.node = file.node := rfl
    have hset (offset : UInt64) := congrArg (Prod.mk (0 : ℤ))
      (generic_setFd s s rfl i { file with offset := offset })
    simp only [Option.map_some, hnode]
    by_cases h0 : whence = 0
    · rw [if_pos h0, if_pos h0]
      exact hset offset
    · rw [if_neg h0, if_neg h0]
      by_cases h1 : whence = 1
      · rw [if_pos h1, if_pos h1]
        exact hset (file.offset + offset)
      · rw [if_neg h1, if_neg h1]
        by_cases h2 : whence = 2
        · rw [if_pos h2, if_pos h2]
          cases hn : file.node with
          | none => rfl
          | some n =>
            have hend := hset ((s.ramfsNodePool n).size.toUInt64 + offset)
            simp only [hn] at hend
            exact hend
        · rw [if_neg h2, if_neg h2]

theorem generic_vfsReaddir (s : Vfs) (fd : ℤ) :
    Descriptors.vfsReaddir (ramfsOps answers) (Descriptors.ofVfs s) fd =
      some ((vfsReaddir s fd).1, (vfsReaddir s fd).2.1,
        Descriptors.ofVfs (vfsReaddir s fd).2.2) := by
  unfold Descriptors.vfsReaddir vfsReaddir
  rw [generic_liveFd]
  cases liveFd s fd with
  | none => rfl
  | some out =>
    obtain ⟨i, file⟩ := out
    have hnode : file.generic.node = file.node := rfl
    simp only [Option.map_some, hnode]
    cases hn : file.node with
    | none => rfl
    | some n =>
      have hops : (s.files.ramfsNodePool n).ops = (s.ramfsNodePool n).ops := rfl
      simp only [Option.bind_some, ramfsOps, Descriptors.ofVfs, hops]
      cases (s.ramfsNodePool n).ops with
      | none => rfl
      | some kind =>
        cases kind
        have hreaddir : ramfsReaddir s.files n = ramfsReaddir s n := rfl
        have hoffset : file.generic.offset = file.offset := rfl
        simp only [Option.map_some, hreaddir, hoffset]
        cases ramfsReaddir s n file.offset.toUInt32 with
        | none => rfl
        | some child =>
          have hset := generic_setFd s s rfl i { file with offset := file.offset + 1 }
          simp only [hn] at hset
          exact congrArg (fun st => some ((0 : ℤ), some (direntOf s child), st)) hset

/-- A call of the VFS is the call of the descriptor table over ramfs. -/
theorem fdCall_ofVfs (s : Vfs) (c : Descriptors.FdCall) :
    Descriptors.fdCall (ramfsOps answers) (Descriptors.ofVfs s) c =
      (vfsCall answers s c.vfs).map fun out => (out.1.value, Descriptors.ofVfs out.2) := by
  cases c with
  | «open» path flags =>
    rw [Descriptors.fdCall, generic_vfsOpen, Descriptors.FdCall.vfs, vfsCall, Option.map_map]
    rfl
  | close fd => exact generic_vfsClose s fd
  | read fd count =>
    rw [Descriptors.fdCall, generic_vfsRead, Descriptors.FdCall.vfs, vfsCall, Option.map_map,
      Option.map_map]
    rfl
  | write fd buffer count =>
    rw [Descriptors.fdCall, generic_vfsWrite, Descriptors.FdCall.vfs, vfsCall, Option.map_map]
    rfl
  | seek fd offset whence => exact congrArg some (generic_vfsSeek s fd offset whence)
  | readdir fd =>
    rw [Descriptors.fdCall, generic_vfsReaddir]
    rfl

theorem run_ofVfs {calls : List Descriptors.FdCall}
    (hrun : Run (vfsStep answers) s (calls.map Descriptors.FdCall.vfs) s') :
    Run (Descriptors.fdStep (ramfsOps answers)) (Descriptors.ofVfs s) calls
      (Descriptors.ofVfs s') := by
  induction calls generalizing s with
  | nil =>
    cases hrun
    exact .nil _
  | cons c calls ih =>
    cases hrun with
    | cons hstep hrest =>
      obtain ⟨reply, hcall⟩ := hstep
      refine .cons ⟨reply.value, ?_⟩ (ih hrest)
      rw [fdCall_ofVfs, hcall]
      rfl

/-! ## Every run -/

/-- The descriptors of ramfs files, from any state in which none is open. -/
theorem ramfs_isolated (hs : ∀ i, s.gFds i = ⟨none, 0, 0, 0⟩) {calls : List Descriptors.FdCall}
    (hrun : Run (vfsStep answers) s (calls.map Descriptors.FdCall.vfs) s') :
    Descriptors.Isolated (ramfsOps answers) (Descriptors.ofVfs s') := by
  have hstart : Descriptors.TableInv (Descriptors.ofVfs s).gFds := by
    intro i hne
    have hzero : ((Descriptors.ofVfs s).gFds i).refcount = 0 := by
      change (s.gFds i).refcount = 0
      rw [hs]
    exact absurd hzero hne
  exact (hstart.run (run_ofVfs hrun)).isolated

/-- Whatever the file systems do, descriptors do not disturb each other. -/
theorem descriptors_isolated {σ ν : Type*} {ops : FileOps σ ν} {files : σ}
    {calls : List Descriptors.FdCall} {st : Descriptors.State σ ν}
    (hrun : Run (Descriptors.fdStep ops) (Descriptors.start files) calls st) :
    Descriptors.Isolated ops st :=
  ((Descriptors.tableInv_start files).run hrun).isolated

/-- The root directory opened twice. -/
def rootTwice : Descriptors.State Vfs ℕ :=
  ((Descriptors.start (ramfsRoot fun _ _ => 0)).setFd 3 ⟨some 0, 0, 0, 1⟩).setFd 4 ⟨some 0, 0, 0, 1⟩

theorem descriptors_isolated_rootTwice :
    Run (Descriptors.fdStep (ramfsOps fun _ => 0)) (Descriptors.start (ramfsRoot fun _ _ => 0))
        [.open (str "/") 0, .open (str "/") 0] rootTwice ∧
      Descriptors.liveCount rootTwice.gFds = 2 ∧
      Descriptors.Isolated (ramfsOps fun _ => 0) rootTwice := by
  have hrun : Run (Descriptors.fdStep (ramfsOps fun _ => 0))
      (Descriptors.start (ramfsRoot fun _ _ => 0)) [.open (str "/") 0, .open (str "/") 0]
      rootTwice := .cons ⟨3, rfl⟩ (.cons ⟨4, rfl⟩ (.nil _))
  exact ⟨hrun, by decide +kernel, descriptors_isolated hrun⟩

end Rhoudveine.Fs
