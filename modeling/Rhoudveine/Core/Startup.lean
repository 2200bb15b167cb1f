import Rhoudveine.Tar.Install
import Rhoudveine.Elf.Contents
import Rhoudveine.Fs.Embedding

/-!
# Starting the first program

The second half of `kernel_main`: the root file system from the archive, the standard directories,
DeviceFS and ProcessFS, and the program `init` that is read from there and run.
-/

namespace Rhoudveine.Startup
open Memory Walk
open Fs hiding Holds
open Tar Elf
open Mm (Vm indices)
open Fs.Joint (NodePtr Os Fat32Ops Fat32Files State)

variable (answers : ℕ → UInt64)

/-! ## The modules -/

/-- `struct limine_file`. -/
structure LimineFile where
  address : Memory
  size : UInt64
  cmdline : Option Str

/-- `contains_substr` on strings. -/
def containsSubstr : Str → Str → Bool
  | [], _ => false
  | c :: s, sub => sub.isPrefixOf (c :: s) || containsSubstr s sub

/-- The first module whose command line names an archive. -/
def rootfsModule (modules : List LimineFile) : Option LimineFile :=
  modules.find? fun m =>
    match m.cmdline with
    | none => false
    | some cmdline =>
      containsSubstr cmdline (str "rootfs.tar") || containsSubstr cmdline (str ".tar")

/-! ## The root file system -/

/-- Step 8. -/
def extractRootfs (fuel : ℕ) (modules : List LimineFile) (s : Vfs) : Option Vfs :=
  match rootfsModule modules with
  | none => some s
  | some m =>
    (tarExtractAll m.address m.size (some (rootfsCall answers m.address)) fuel
      (some (s, ⟨0, 0, 0⟩))).bind fun out => out.2.2.map Prod.fst

/-- Step 9. -/
def standardDirectories : List Str :=
  [str "/System", str "/System/Rhoudveine", str "/System/Rhoudveine/Booter",
    str "/System/Rhoudveine/Runtime", str "/System/Rhoudveine/Runtime/Device",
    str "/System/Rhoudveine/Runtime/Process"]

def makeDirectories : List Str → Vfs → Option Vfs
  | [], s => some s
  | path :: paths, s => (vfsMkdir s path).bind fun out => makeDirectories paths out.2

/-! ## The other file systems -/

section runtime

variable {δ υ γ : Type} (fat : Fat32Ops δ υ γ) (files : Fat32Files δ υ γ)

def devicePath : Str := str "/System/Rhoudveine/Runtime/Device"

def processPath : Str := str "/System/Rhoudveine/Runtime/Process"

/-- A call of `vfs_mount`, and what follows if it returns 0. -/
def mountThen (path fstype : Str) (next : Os δ υ γ → Os δ υ γ) (o : Os δ υ γ) :
    Option (Os δ υ γ) :=
  (Joint.vfsMount fat o.tree path fstype (some (str "none"))).map fun out =>
    let o := { o with tree := out.2 }
    if out.1 = 0 then next o else o

def devices : List Str := [str "ahci0", str "vga0", str "eth0", str "cpu0"]

/-- The entries of ProcessFS; `membuf` and `cpubuf` are what `sprintf` makes of the sizes and of
the number of processors. -/
def processes (membuf cpubuf : Str) : List (Str × Str) :=
  [(str "init", str "PID: 1\nName: init\nState: Running\n"), (str "meminfo", membuf),
    (str "cpuinfo", cpubuf)]

/-- Step 10. -/
def mountRuntime (membuf cpubuf : Str) (o : Os δ υ γ) : Option (Os δ υ γ) :=
  (mountThen fat devicePath (str "DeviceFS")
    (fun o => devices.foldl Os.devfsAddDevice o) o).bind
      (mountThen fat processPath (str "ProcessFS") fun o =>
        (processes membuf cpubuf).foldl (fun o p => Os.procfsAddEntry o p.1 p.2) o)

/-! ## The first program -/

def initPath : Str := str "/System/Rhoudveine/Booter/init"

def initMaxSize : UInt64 := 1024 * 1024

/-- The file as step 13 reads it into `init_buffer`, and the state after `vfs_close`. -/
def readInit (o : Os δ υ γ) : Option (ExecFile × Os δ υ γ) :=
  (Joint.vfsOpen fat files o initPath 0).bind fun opened =>
    if opened.1 < 0 then some (.notFound, opened.2)
    else
      (Joint.vfsRead files opened.2 opened.1 initMaxSize).map fun read =>
        (.opened read.1 (ofBytes read.2.1), (Joint.vfsClose files read.2.2 opened.1).2)

/-- How the kernel goes on: with the program, or with the built-in one when there is none or it
does not load. -/
inductive Started
  | program (entry rsp : UInt64)
  | embedded
  deriving DecidableEq

def runInit (vm : Vm) : ExecFile → Started × Vm
  | .notFound => (.embedded, vm)
  | .opened bytesRead buffer =>
    if bytesRead > 0 then
      match elf64LoadAndRun vm buffer (UInt32.ofInt bytesRead) with
      | (.jump entry rsp, _, vm) => (.program entry rsp, vm)
      | (.code _, _, vm) => (.embedded, vm)
    else (.embedded, vm)

/-- Steps 7 to 14 of `kernel_main`.  The file systems are those of `Joint` from the first mount on
that is not ramfs. -/
def kernelMain (fuel : ℕ) (modules : List LimineFile) (membuf cpubuf : Str)
    (frames : UInt64 → ℕ → UInt8) (disk : δ) (vm : Vm) : Option (Started × Vm) :=
  (vfsMount (vfsInit frames) (str "/") (str "ramfs")).bind fun mounted =>
    (extractRootfs answers fuel modules mounted.2).bind fun s =>
      (makeDirectories standardDirectories s).bind fun s =>
        (mountRuntime fat membuf cpubuf (Joint.ofVfs s disk)).bind fun o =>
          (readInit fat files o).map fun read => runInit vm read.1

end runtime

/-! ## One mount -/

/-- The root is the only mount. -/
structure OneMount (s : Vfs) : Prop where
  planted : Planted s
  count : s.gMountCount = 1
  entry : (s.gMounts 0).root = some 0

namespace OneMount

variable {answers : ℕ → UInt64} {s s' : Vfs}

theorem sameTree (h : OneMount s) (ht : SameTree s s') : OneMount s' where
  planted := h.planted.sameTree ht
  count := ht.mounts.2.trans h.count
  entry := by rw [ht.mounts.1]; exact h.entry

theorem created (h : OneMount s) {parent : ℕ} {name : Str} {flags : UInt32}
    (hc : Created s parent name flags s') : OneMount s' := by
  have hplanted := h.planted.created hc
  cases hc with
  | mk => exact ⟨hplanted, h.count, h.entry⟩

theorem mkdir (h : OneMount s) {path : Str} {r : ℤ} (hm : vfsMkdir s path = some (r, s')) :
    OneMount s' := by
  rcases createAt_cases (fun _ _ _ => rfl) hm with ⟨-, rfl⟩ | ⟨-, parent, -, hc⟩
  · exact h
  · exact h.created hc

theorem «open» (h : OneMount s) {path : Str} {flags : UInt32} {r : ℤ}
    (ho : vfsOpen s path flags = some (r, s')) : OneMount s' := by
  rcases vfsOpen_created ho with ht | ⟨parent, name, t, hc, ht⟩
  · exact h.sameTree ht
  · exact (h.created hc).sameTree ht

theorem extractDirectory {path : Str} {ctx : ExtractContext} {st : Vfs × ExtractContext}
    (h : OneMount s) (he : Tar.extractDirectory path (s, ctx) = some st) : OneMount st.1 := by
  unfold Tar.extractDirectory at he
  generalize path.take 255 = dirname at he
  dsimp only at he
  generalize (if dirname.getLast? = some slash then dirname.dropLast else dirname) = dirname at he
  split at he
  · obtain rfl := Option.some.inj he
    exact h
  · obtain ⟨⟨r, t⟩, hm, rfl⟩ := Option.map_eq_some_iff.mp he
    exact h.mkdir hm

theorem extractFile {path : Str} {data : ℕ → UInt8} {size : UInt64} {ctx : ExtractContext}
    {st : Vfs × ExtractContext} (h : OneMount s)
    (he : Tar.extractFile answers path data size (s, ctx) = some st) : OneMount st.1 := by
  obtain ⟨s₁, hparent, he⟩ := Option.bind_eq_some_iff.mp he
  have h₁ : OneMount s₁ := by
    simp only [makeParent] at hparent
    split at hparent
    · exact Option.some.inj hparent ▸ h
    · split at hparent
      · exact Option.some.inj hparent ▸ h
      · obtain ⟨⟨r, t⟩, hm, rfl⟩ := Option.map_eq_some_iff.mp hparent
        exact h.mkdir hm
  obtain ⟨⟨fd, s₂⟩, hopen, he⟩ := Option.bind_eq_some_iff.mp he
  have h₂ := h₁.open hopen
  split at he
  · obtain rfl := Option.some.inj he
    exact h₂
  · obtain ⟨⟨r, s₃⟩, hwrite, rfl⟩ := Option.map_eq_some_iff.mp he
    exact (h₂.sameTree (vfsWrite_sameTree hwrite)).sameTree (vfsClose_sameTree s₃ fd)

theorem rootfsCall (tar : Memory) (c : Call) (st : Option (Vfs × ExtractContext))
    (h : ∀ x, st = some x → OneMount x.1) :
    ∀ x, (Tar.rootfsCall answers tar c st).2 = some x → OneMount x.1 := by
  intro x hx
  obtain ⟨⟨s, ctx⟩, rfl, hx⟩ := Option.bind_eq_some_iff.mp hx
  have hs := h _ rfl
  change rootfsExtractCallback answers _ _ _ _ = some x at hx
  unfold rootfsExtractCallback at hx
  split at hx
  · obtain rfl := Option.some.inj hx
    exact hs
  · dsimp only at hx
    generalize (if (readStr tar c.filename 513).take 2 = str "./" then
      (readStr tar c.filename 513).drop 2 else readStr tar c.filename 513) = filename at hx
    cases hdata : c.data with
    | none =>
      rw [hdata] at hx
      exact hs.extractDirectory hx
    | some d =>
      rw [hdata] at hx
      exact hs.extractFile hx

theorem root (frames : UInt64 → ℕ → UInt8) : OneMount (ramfsRoot frames) := by
  have hmounted := vfsMount_cases (ramfsRoot_mount frames)
  refine ⟨(Planted.init frames).mounted hmounted, rfl, rfl⟩

end OneMount

/-- What the callback keeps is kept by the whole walk. -/
theorem tarExtractAll_keeps {σ : Type*} {P : σ → Prop} {f : Call → σ → ℤ × σ}
    (hf : ∀ c s, P s → P (f c s).2) (tar : Memory) (tarSize : UInt64) {fuel : ℕ} {s s' : σ} {r : ℤ}
    {log : List Tar.Event} (hs : P s)
    (h : tarExtractAll tar tarSize (some f) fuel s = some (r, log, s')) : P s' := by
  have hloop (fuel : ℕ) : ∀ (offset : UInt64) (s : σ) (r : ℤ) (log : List Tar.Event), P s →
      tarLoop tar tarSize (some f) fuel offset s = some (r, log, s') → P s' := by
    induction fuel with
    | zero => intro offset s r log _ h; cases h
    | succ fuel ih =>
      intro offset s r log hs h
      have hcall (c : Option Call) : P (runCallback (some f) c s).2.2 := by
        cases c with
        | none => exact hs
        | some c => exact hf c s hs
      rw [tarLoop] at h
      split at h
      · split at h
        · cases h
          exact hs
        · dsimp only at h
          split at h
          · cases h
            exact hcall _
          · obtain ⟨⟨r', log', s''⟩, hrest, heq⟩ := Option.map_eq_some_iff.mp h
            cases heq
            exact ih _ _ _ _ (hcall _) hrest
      · cases h
        exact hs
  unfold tarExtractAll at h
  split at h
  · cases h
    exact hs
  · exact hloop fuel 0 s r log hs h

/-! ## The file stays where it is -/

/-- The file with these components holds the bytes `content`. -/
structure HasFile (answers : ℕ → UInt64) (comps : List Str) (content : List UInt8) (s : Vfs) :
    Prop where
  mounts : OneMount s
  tree : OneTree s
  closed : ∀ fd, (s.gFds fd).refcount = 0
  file : ∃ n k base, walk (ramfsFinddir s) 0 comps = some n ∧ Stored answers s n content k base

section file

variable {answers : ℕ → UInt64} {comps : List Str} {content : List UInt8} {s s' : Vfs}

/-- A new directory takes nothing away. -/
theorem HasFile.mkdir (h : HasFile answers comps content s) {path : Str}
    (hname : (vfsBasename path).length ≤ 31) :
    ∃ r s', vfsMkdir s path = some (r, s') ∧ HasFile answers comps content s' := by
  have hkeep : ∃ r s', vfsMkdir s path = some (r, s') ∧
      (s' = s ∨ ∃ p, OneTree.Grown s p (vfsBasename path) vfsDirectory s') := by
    rcases h.tree.resolvePath (vfsDirname path) with hres | ⟨p, hp, hres⟩
    · exact ⟨-1, s, by rw [vfsMkdir, createAt, hres], Or.inl rfl⟩
    · have hmkdir : vfsMkdir s path =
          some (ramfsCreate s p (vfsBasename path) vfsDirectory) := by
        rw [vfsMkdir, createAt, hres]
        simp only [h.tree.ops p hp, ramfsMkdirOp]
      rcases ramfsCreate_cases s p (vfsBasename path) vfsDirectory with heq | ⟨t, -, hc⟩
      · exact ⟨-1, s, by rw [hmkdir, heq], Or.inl rfl⟩
      · cases hc with
        | mk hdir _ _ _ _ hroom =>
          obtain ⟨s', heq, hgrown⟩ := h.tree.create vfsDirectory hroom hdir hname
          exact ⟨0, s', by rw [hmkdir, heq], Or.inr ⟨p, hgrown⟩⟩
  obtain ⟨r, s', hmkdir, rfl | ⟨p, hgrown⟩⟩ := hkeep
  · exact ⟨r, s', hmkdir, h⟩
  · obtain ⟨n, k, base, hwalk, hstored⟩ := h.file
    -- every edge there was is still there
    have hedge (m : ℕ) (x : Str) (c : ℕ) (hc : ramfsFinddir s m x = some c) :
        ramfsFinddir s' m x = some c := by
      have hm : m ≠ s.ramfsNodeCount :=
        Nat.ne_of_lt (h.tree.dir_lt m (h.tree.finddir_slot hc).1)
      rw [hgrown.kept m x hm, hc]
      rintro ⟨rfl, rfl, hnone⟩
      rw [hc] at hnone
      cases hnone
    refine ⟨r, s', hmkdir, h.mounts.mkdir hmkdir, hgrown.tree, ?_, n, k, base,
      walk_map (f := id) hedge hwalk,
      Holding.stored_grown hstored (Nat.ne_of_lt (h.tree.walk_lt hwalk)) hgrown⟩
    rw [hgrown.files.2.2.2.2]
    exact h.closed

theorem HasFile.makeDirectories (h : HasFile answers comps content s) (paths : List Str)
    (hnames : ∀ path ∈ paths, (vfsBasename path).length ≤ 31) :
    ∃ s', Startup.makeDirectories paths s = some s' ∧ HasFile answers comps content s' := by
  induction paths generalizing s with
  | nil => exact ⟨s, rfl, h⟩
  | cons path paths ih =>
    obtain ⟨hname, hnames⟩ := List.forall_mem_cons.mp hnames
    obtain ⟨r, s₁, hmkdir, h₁⟩ := h.mkdir hname
    obtain ⟨s₂, hrest, h₂⟩ := ih h₁ hnames
    exact ⟨s₂, by rw [Startup.makeDirectories, hmkdir]; exact hrest, h₂⟩

end file

/-! ## The other mounts -/

section joint

variable {δ υ γ : Type} {fat : Fat32Ops δ υ γ} {files : Fat32Files δ υ γ}
variable {answers : ℕ → UInt64} {comps : List Str} {content : List UInt8} {s : Vfs}

theorem joined_ofVfs (h : OneMount s) (htree : OneTree s) (disk : δ) :
    Joint.Joined (Joint.ofVfs s disk : Os δ υ γ).tree where
  forest := by
    obtain ⟨roots, hforest⟩ := h.planted.forest
    refine ⟨roots, hforest, fun i hi r hr => ?_⟩
    obtain rfl : i = 0 := Nat.lt_one_iff.mp (h.count ▸ hi)
    have hzero : r = 0 := by
      have hroot : ((s.gMounts 0).root.map NodePtr.ramfs : Option (NodePtr γ)) =
        some (.ramfs r) := hr
      rw [h.entry] at hroot
      exact (NodePtr.ramfs.inj (Option.some.inj hroot)).symm
    subst hzero
    -- the first node is nobody's child
    by_contra hnot
    obtain ⟨d, i, hc⟩ := hforest.held 0 htree.root_lt' hnot
    exact absurd (hforest.slot d i 0 hc).2.2.1 (Nat.not_lt_zero d)
  entry_known i hi := by
    obtain rfl : i = 0 := Nat.lt_one_iff.mp (h.count ▸ hi)
    refine ⟨.ramfs 0, ?_, htree.root_lt'⟩
    exact congrArg (Option.map NodePtr.ramfs) h.entry
  root_entry p hp := by
    have hroot : (s.gVfsRoot.map NodePtr.ramfs : Option (NodePtr γ)) = some p := hp
    rw [htree.root_eq] at hroot
    obtain rfl := Option.some.inj hroot
    refine ⟨0, ?_, congrArg (Option.map NodePtr.ramfs) h.entry, fun n hn => ?_⟩
    · exact Nat.zero_lt_one.trans_eq h.count.symm
    · by_contra hne
      have hzero : n ≠ 0 := fun heq => hne (congrArg NodePtr.ramfs heq)
      have hnone : (s.ramfsNodePool n).mount = none := htree.unlinked n hzero
      have hsome : (s.ramfsNodePool n).mount = some 0 := hn
      rw [hnone] at hsome
      cases hsome
  root_inj i hi j hj _ _ _ := by
    have hi' : i = 0 := Nat.lt_one_iff.mp (h.count ▸ hi)
    have hj' : j = 0 := Nat.lt_one_iff.mp (h.count ▸ hj)
    rw [hi', hj']
  link_lt n k hk := htree.link_lt n k hk
  link_inj n n' k hk hk' := by
    have hzero {m : ℕ} (hm : (s.ramfsNodePool m).mount = some k) : m = 0 := by
      by_contra hne
      rw [htree.unlinked m hne] at hm
      cases hm
    rw [hzero hk, hzero hk']

/-- The path leads to a file of ramfs that holds these bytes. -/
structure AtPath (fat : Fat32Ops δ υ γ) (comps : List Str) (content : List UInt8) (o : Os δ υ γ) :
    Prop where
  joined : Joint.Joined o.tree
  root : o.tree.gVfsRoot = some (.ramfs 0)
  free : o.freeFd = some 3
  file : ∃ n, walk (Joint.enter fat o.tree) (.ramfs 0) comps = some (.ramfs n) ∧
    (o.tree.ramfs.ramfsNodePool n).ops = some .ramfs ∧
    ∀ count : UInt32, content.length ≤ count.toNat →
      ramfsRead o.tree.ramfs (some n) 0 count = some ((content.length : ℤ), content)

theorem HasFile.atPath (h : HasFile answers comps content s) (disk : δ) :
    AtPath fat comps content (Joint.ofVfs s disk : Os δ υ γ) := by
  obtain ⟨n, k, base, hwalk, hstored⟩ := h.file
  have hfollow {c d : ℕ} {x : Str} (hc : ramfsFinddir s d x = some c) :
      Joint.followMount (Joint.ofVfs s disk : Os δ υ γ).tree (.ramfs c) = some (.ramfs c) := by
    have hzero : c ≠ 0 := fun heq => h.tree.tree.not_root d x (heq ▸ hc)
    rcases Joint.followMount_cases (Joint.ofVfs s disk : Os δ υ γ).tree (.ramfs c) with
      heq | ⟨c', k, heq, hk, -⟩
    · exact heq
    · obtain rfl := NodePtr.ramfs.inj heq
      have hnone := h.tree.unlinked c hzero
      have hsome : (s.ramfsNodePool c).mount = some k := hk
      rw [hnone] at hsome
      cases hsome
  have hedge (d : ℕ) (x : Str) (c : ℕ) (hc : ramfsFinddir s d x = some c) :
      Joint.enter fat (Joint.ofVfs s disk : Os δ υ γ).tree (.ramfs d) x = some (.ramfs c) := by
    have hops : ((Joint.ofVfs s disk : Os δ υ γ).tree.ramfs.ramfsNodePool d).ops =
        some .ramfs := h.tree.ops d (h.tree.dir_lt d (h.tree.finddir_slot hc).1)
    have hfind : ramfsFinddir (Joint.ofVfs s disk : Os δ υ γ).tree.ramfs d x = some c := hc
    rw [Joint.enter, Joint.child_ramfs_eq, hops, Option.bind_some, hfind]
    exact hfollow hc
  exact {
    joined := joined_ofVfs h.mounts h.tree disk
    root := congrArg (Option.map NodePtr.ramfs) h.tree.root_eq
    free := freeFd_closed h.closed
    file := ⟨n, walk_map (f := NodePtr.ramfs) hedge hwalk, h.tree.ops n (h.tree.walk_lt hwalk),
      fun count hcount => hstored.read hcount⟩ }

theorem token_of_component (hcomps : ∀ x ∈ comps, Component x) : ∀ x ∈ comps, Token x :=
  fun x hx => ⟨(hcomps x hx).nonempty, (hcomps x hx).no_slash,
    (hcomps x hx).length_le.trans (by norm_num)⟩

namespace AtPath

variable {o o' : Os δ υ γ}

theorem resolve (h : AtPath fat comps content o) (hcomps : ∀ x ∈ comps, Component x) :
    ∃ n, Joint.vfsResolvePath fat o.tree (absolute comps) = .node (.ramfs n) ∧
      (o.tree.ramfs.ramfsNodePool n).ops = some .ramfs ∧
      ∀ count : UInt32, content.length ≤ count.toNat →
        ramfsRead o.tree.ramfs (some n) 0 count = some ((content.length : ℤ), content) := by
  obtain ⟨n, hwalk, hops, hread⟩ := h.file
  refine ⟨n, ?_, hops, hread⟩
  have htoken := token_of_component hcomps
  have hhead : (absolute comps).head? = some slash := by
    rw [absolute_eq_cons]
    rfl
  rw [h.joined.resolve_walk h.root hhead, tokens_absolute htoken, hwalk]
  rfl

/-- A mount that the path does not lead through. -/
theorem mount (h : AtPath fat comps content o) (hcomps : ∀ x ∈ comps, Component x)
    {path fstype : Str} (hpath : path ≠ [slash]) (hoff : ¬ tokens path <+: comps)
    {device : Option Str} {r : ℤ} {tree : State δ υ γ}
    (hm : Joint.vfsMount fat o.tree path fstype device = some (r, tree)) :
    AtPath fat comps content { o with tree := tree } := by
  obtain ⟨n, hwalk, hops, hread⟩ := h.file
  have htoken := token_of_component hcomps
  have hhead : (absolute comps).head? = some slash := by
    rw [absolute_eq_cons]
    rfl
  have hjoined : Joint.Joined tree := h.joined.mounted (Joint.vfsMount_cases hm)
  have hroot := (Joint.mount_vfsRoot hm hpath).trans h.root
  have hn : n < o.tree.ramfs.ramfsNodeCount :=
    walk_mem h.joined.enter_known (h.joined.root_known h.root) hwalk
  have hsame := Joint.sameFile_mount hm hn
  refine ⟨hjoined, hroot, h.free, n, ?_, hsame.ops.trans hops, fun count hcount => ?_⟩
  · have hresolve := h.joined.resolve_elsewhere (p := absolute comps) hm hpath (by
      rwa [tokens_absolute htoken])
    rw [hjoined.resolve_walk hroot hhead, h.joined.resolve_walk h.root hhead,
      tokens_absolute htoken, hwalk] at hresolve
    exact Joint.Resolved.ofPointer_eq_node.mp hresolve
  · rw [hsame.read, hread count hcount]

/-- Names in DeviceFS and ProcessFS are not on the path. -/
theorem withNames (h : AtPath fat comps content o) (devfsNames procfsNames contents : List Str) :
    AtPath fat comps content
      { o with tree := o.tree.withNames devfsNames procfsNames, procfsContent := contents } where
  joined := h.joined.withNames devfsNames procfsNames
  root := h.root
  free := h.free
  file := by
    obtain ⟨n, hwalk, hfile⟩ := h.file
    have hsame (m : ℕ) (x : Str) :
        Joint.enter fat (o.tree.withNames devfsNames procfsNames) (.ramfs m) x =
          Joint.enter fat o.tree (.ramfs m) x := rfl
    exact ⟨n, h.joined.walk_ramfs hsame hwalk, hfile⟩

theorem devfsAddDevice (h : AtPath fat comps content o) (name : Str) :
    AtPath fat comps content (Os.devfsAddDevice o name) :=
  h.withNames _ o.tree.procfsNames o.procfsContent

theorem procfsAddEntry (h : AtPath fat comps content o) (name text : Str) :
    AtPath fat comps content (Os.procfsAddEntry o name text) :=
  h.withNames o.tree.devfsNames _ _

theorem mountThen (h : AtPath fat comps content o) (hcomps : ∀ x ∈ comps, Component x)
    {path : Str} (fstype : Str) {next : Os δ υ γ → Os δ υ γ} (hpath : path ≠ [slash])
    (hoff : ¬ tokens path <+: comps)
    (hnext : ∀ o, AtPath fat comps content o → AtPath fat comps content (next o)) :
    ∃ o', Startup.mountThen fat path fstype next o = some o' ∧ AtPath fat comps content o' := by
  obtain ⟨r, tree, hm⟩ := h.joined.mount_returns fat path fstype (some (str "none"))
  have hmounted := h.mount hcomps hpath hoff hm
  refine ⟨_, congrArg (Option.map _) hm, ?_⟩
  dsimp only
  split
  · exact hnext _ hmounted
  · exact hmounted

theorem mountRuntime (h : AtPath fat comps content o) (hcomps : ∀ x ∈ comps, Component x)
    (hdevice : ¬ tokens devicePath <+: comps) (hprocess : ¬ tokens processPath <+: comps)
    (membuf cpubuf : Str) :
    ∃ o', Startup.mountRuntime fat membuf cpubuf o = some o' ∧ AtPath fat comps content o' := by
  have hdevices (l : List Str) (o : Os δ υ γ) (h : AtPath fat comps content o) :
      AtPath fat comps content (l.foldl Os.devfsAddDevice o) := by
    induction l generalizing o with
    | nil => exact h
    | cons name l ih => exact ih _ (h.devfsAddDevice name)
  have hentries (l : List (Str × Str)) (o : Os δ υ γ) (h : AtPath fat comps content o) :
      AtPath fat comps content (l.foldl (fun o p => Os.procfsAddEntry o p.1 p.2) o) := by
    induction l generalizing o with
    | nil => exact h
    | cons p l ih => exact ih _ (h.procfsAddEntry p.1 p.2)
  obtain ⟨o₁, h₁, hat₁⟩ := h.mountThen hcomps (str "DeviceFS") (by decide) hdevice
    (hdevices devices)
  obtain ⟨o₂, h₂, hat₂⟩ := hat₁.mountThen hcomps (str "ProcessFS") (by decide) hprocess
    (hentries (processes membuf cpubuf))
  exact ⟨o₂, by rw [Startup.mountRuntime, h₁, Option.bind_some, h₂], hat₂⟩

variable (files) in
/-- The file is read as a whole. -/
theorem readInit (h : AtPath fat comps content o) (hcomps : ∀ x ∈ comps, Component x)
    (hpath : initPath = absolute comps) (hlen : content.length ≤ 1024 * 1024) :
    ∃ o', Startup.readInit fat files o =
      some (.opened content.length (ofBytes content), o') := by
  obtain ⟨n, hresolve, hops, hread⟩ := h.resolve hcomps
  have hopen : Joint.vfsOpen fat files o initPath 0 =
      some (3, o.setFd 3 ⟨some (.ramfs n), 0, 0, 1⟩) := by
    have happend : ¬ (0 : UInt32) &&& oAppend ≠ 0 := by decide
    rw [Joint.vfsOpen, hpath, hresolve]
    dsimp only
    rw [Joint.openNode, h.free]
    dsimp only
    have hnodeOpen : Joint.nodeOpen files o 0 (.ramfs n) = 0 := rfl
    rw [if_neg (not_not.mpr hnodeOpen), if_neg happend]
    rfl
  have hlive : (o.setFd 3 ⟨some (.ramfs n), 0, 0, 1⟩).liveFd 3 =
      some (3, ⟨some (.ramfs n), 0, 0, 1⟩) := by
    simp [Os.liveFd, Os.setFd, maxFds]
  have hnode : Joint.nodeRead files (o.setFd 3 ⟨some (.ramfs n), 0, 0, 1⟩) 0
      initMaxSize.toUInt32 (.ramfs n) = some ((content.length : ℤ), content) := by
    have hcount : initMaxSize.toUInt32.toNat = 1024 * 1024 := by decide
    have htree : (o.setFd 3 ⟨some (.ramfs n), 0, 0, 1⟩).tree = o.tree := rfl
    rw [Joint.nodeRead, htree, hops]
    exact hread _ (hcount ▸ hlen)
  rw [Startup.readInit, hopen, Option.bind_some]
  dsimp only
  rw [if_neg (by norm_num), Joint.vfsRead, hlive]
  dsimp only
  rw [hnode]
  exact ⟨_, rfl⟩

end AtPath

end joint

/-! ## From the modules to the first program -/

def initComps : List Str := [str "System", str "Rhoudveine", str "Booter", str "init"]

theorem initPath_eq : initPath = absolute initComps := by decide +kernel

theorem initComps_component : ∀ x ∈ initComps, Component x := by
  have hcomponent {x : Str} (h : x ≠ [] ∧ slash ∉ x ∧ x.length ≤ 31) : Component x :=
    ⟨h.1, h.2.1, h.2.2⟩
  intro x hx
  simp only [initComps, List.mem_cons, List.not_mem_nil, or_false] at hx
  rcases hx with rfl | rfl | rfl | rfl
  all_goals exact hcomponent (by decide +kernel)

section boot

variable {δ υ γ : Type} {fat : Fat32Ops δ υ γ} {files : Fat32Files δ υ γ}
variable {answers : ℕ → UInt64} {free : ℕ} {es : List Entry}

variable (fat files) in
/-- The standard directories and the other file systems leave the file where it is. -/
theorem readInit_of_hasFile {content : List UInt8} {s : Vfs}
    (h : HasFile answers initComps content s) (hlen : content.length ≤ 1024 * 1024)
    (membuf cpubuf : Str) (disk : δ) :
    ∃ s' o o', makeDirectories standardDirectories s = some s' ∧
      mountRuntime fat membuf cpubuf (Joint.ofVfs s' disk) = some o ∧
      readInit fat files o = some (.opened content.length (ofBytes content), o') := by
  obtain ⟨s', hdirs, h'⟩ := h.makeDirectories standardDirectories (by decide +kernel)
  have hat : AtPath fat initComps content (Joint.ofVfs s' disk : Os δ υ γ) := h'.atPath disk
  obtain ⟨o, hmount, hat'⟩ := hat.mountRuntime initComps_component (by decide +kernel)
    (by decide +kernel) membuf cpubuf
  obtain ⟨o', hread⟩ := hat'.readInit files initComps_component initPath_eq hlen
  exact ⟨s', o, o', hdirs, hmount, hread⟩

/-- An archive that fits puts its files in place. -/
theorem hasFile_of_archive (hfresh : FreshAnswers answers) (hfree : ∀ i, answers i ≠ 0 ↔ i < free)
    (hes : WellFormed es) {trailer : List UInt8}
    (hlen : (encode (es.map Entry.member) trailer).length < 2 ^ 63) (hfits : Fits free es)
    {modules : List LimineFile} {cmdline : Option Str}
    (hmodule : rootfsModule modules = some ⟨archive (es.map Entry.member) trailer,
      UInt64.ofNat (encode (es.map Entry.member) trailer).length, cmdline⟩)
    {e : Entry} (he : e ∈ es) {flag0 : Bool} {content : List UInt8}
    (hkind : e.kind = .file flag0 content) (frames : UInt64 → ℕ → UInt8) :
    ∃ fuel s, extractRootfs answers fuel modules (ramfsRoot frames) = some s ∧
      HasFile answers e.comps content s := by
  obtain ⟨fuel, log, st, heq, hgood, -⟩ := tarExtractAll_outcome hfresh hfree hes hlen frames
  obtain ⟨⟨s, ctx⟩, rfl, hdone⟩ := hgood hfits
  have hmounts : OneMount s := by
    apply tarExtractAll_keeps
      (P := fun st : Option (Vfs × ExtractContext) => ∀ x, st = some x → OneMount x.1)
      (fun c st => OneMount.rootfsCall _ c st) _ _ _ heq _ rfl
    rintro x ⟨⟩
    exact OneMount.root frames
  refine ⟨fuel, s, ?_, hmounts, hdone.holding.tree, hdone.holding.closed,
    hdone.holding.files e he flag0 content hkind⟩
  rw [extractRootfs, hmodule]
  dsimp only
  rw [heq]
  rfl

/-- A boot module that holds the archive of a root file system with a valid program as its
`/System/Rhoudveine/Booter/init` ends in that program, with its segments in memory. -/
theorem kernelMain_program (hfresh : FreshAnswers answers) (hfree : ∀ i, answers i ≠ 0 ↔ i < free)
    (hes : WellFormed es) {trailer : List UInt8}
    (hlen : (encode (es.map Entry.member) trailer).length < 2 ^ 63) (hfits : Fits free es)
    {modules : List LimineFile} {cmdline : Option Str}
    (hmodule : rootfsModule modules = some ⟨archive (es.map Entry.member) trailer,
      UInt64.ofNat (encode (es.map Entry.member) trailer).length, cmdline⟩)
    {e : Entry} (he : e ∈ es) {flag0 : Bool} {content : List UInt8}
    (hkind : e.kind = .file flag0 content) (hcomps : e.comps = initComps) {vm : Vm}
    (hok : vm.TreeOk) (hno : ∀ v, UserHalf v → vm.NoLarge (indices v))
    (hvalid : ValidImage (ofBytes content) (UInt32.ofNat content.length))
    (hloads : vm.budget.Loads (programPages (ofBytes content)))
    (hapart : (loadHeaders (ofBytes content) (phdrOffsets (ofBytes content))).Pairwise
      fun ph ph' => ∀ i < ph.pMemsz.toNat, pageOf (ph.pVaddr + UInt64.ofNat i) ∉ ph'.pages)
    (membuf cpubuf : Str) (frames : UInt64 → ℕ → UInt8) (disk : δ) :
    ∃ fuel vm',
      kernelMain answers fat files fuel modules membuf cpubuf frames disk vm =
        some (.program (eEntry (ofBytes content)) initStackTop, vm') ∧
      ∀ ph ∈ loadHeaders (ofBytes content) (phdrOffsets (ofBytes content)),
        SegmentInMemory vm' (ofBytes content) ph := by
  have hsmall : content.length ≤ 512 * 1024 := by
    have hcontent := (hes.entries e he).content_length
    rwa [hkind] at hcontent
  obtain ⟨fuel, s, hextract, hfile⟩ :=
    hasFile_of_archive hfresh hfree hes hlen hfits hmodule he hkind frames
  rw [hcomps] at hfile
  obtain ⟨s', o, o', hdirs, hmount, hread⟩ :=
    readInit_of_hasFile fat files hfile (by omega) membuf cpubuf disk
  -- the whole file has been read, so the loader sees the image
  have hpos : ((content.length : ℤ) > 0) := by
    have hheader := UInt32.le_iff_toNat_le.mp hvalid.header
    have hsize : ehdrSize.toNat = 64 := rfl
    rw [UInt32.toNat_ofNat', Nat.mod_eq_of_lt (by omega)] at hheader
    omega
  have hofInt : UInt32.ofInt (content.length : ℤ) = UInt32.ofNat content.length := by
    rw [UInt32.ofInt]
    congr 1
    omega
  obtain ⟨hjump, -, -⟩ := load_spec hok hno hvalid hloads
  refine ⟨fuel, (elf64LoadAndRun vm (ofBytes content) (UInt32.ofNat content.length)).2.2, ?_, ?_⟩
  · rw [kernelMain, ramfsRoot_mount, Option.bind_some, hextract, Option.bind_some, hdirs,
      Option.bind_some, hmount, Option.bind_some, hread, Option.map_some, runInit, if_pos hpos,
      hofInt]
    generalize hloaded : elf64LoadAndRun vm (ofBytes content) (UInt32.ofNat content.length) = loaded
    rw [hloaded] at hjump
    obtain ⟨outcome, log, vm'⟩ := loaded
    obtain rfl : outcome = .jump (eEntry (ofBytes content)) initStackTop := hjump
    rfl
  · intro ph hph i hi
    obtain ⟨before, after, hsplit⟩ := List.append_of_mem hph
    obtain ⟨f, -, hbyte⟩ := readVirt_segment hok hno hvalid hloads hsplit hi
    rw [hbyte, if_neg]
    rintro ⟨ph', hph', hpage⟩
    rw [hsplit, List.pairwise_append, List.pairwise_cons] at hapart
    exact hapart.2.1.1 ph' hph' i hi hpage

end boot

/-! ## An archive with a program of two segments -/

instance (k : Kind) : Decidable (k = .dir) :=
  match k with
  | .file _ _ => isFalse fun h => by cases h
  | .dir => isTrue rfl

/-- Each entry lies in the root or in a directory that stands before it. -/
theorem parents_of_dropLast {es : List Entry}
    (h : ∀ i : Fin es.length, (es.get i).comps.dropLast ≠ [] →
      ∃ d ∈ es.take i, d.comps = (es.get i).comps.dropLast ∧ d.kind = .dir) :
    ∀ pre e post, es = pre ++ e :: post → ∀ init x, e.comps = init ++ [x] → init ≠ [] →
      ∃ d ∈ pre, d.comps = init ∧ d.kind = .dir := by
  rintro pre e post rfl init x hcomps hinit
  have hat := h ⟨pre.length, by simp⟩
  simp only [List.get_eq_getElem, List.getElem_append_right le_rfl, Nat.sub_self,
    List.getElem_cons_zero, List.take_left, hcomps, List.dropLast_concat] at hat
  exact hat hinit

/-- The file of `twoSegments`. -/
def initContent : List UInt8 :=
  headerBytes 2 ++ loadBytes 0 0x400000 16 16 ++ loadBytes 0 0x401000 16 16

def initEntry : Entry :=
  plainEntry initComps false (.file true initContent) [0x30, 0x31, 0x35, 0x30, 0x33, 0x36]

/-- `./System/`, `./System/Rhoudveine/`, `./System/Rhoudveine/Booter/` and the program. -/
def initArchive : List Entry :=
  [plainEntry (initComps.take 1) true .dir [0x30, 0x31, 0x30, 0x36, 0x30, 0x35],
    plainEntry (initComps.take 2) true .dir [0x30, 0x31, 0x32, 0x37, 0x31, 0x35],
    plainEntry (initComps.take 3) true .dir [0x30, 0x31, 0x34, 0x31, 0x34, 0x37],
    initEntry]

theorem initArchive_wellFormed : WellFormed initArchive where
  entries := by
    have hdot (x : Str) (hx : x ∈ initComps) : x ≠ str "." := by
      revert x
      decide +kernel
    have hdir (k : ℕ) {chksum : List UInt8}
        (hname : (plainEntry (initComps.take k) true .dir chksum).name.length < 100 ∧
          0 ∉ (plainEntry (initComps.take k) true .dir chksum).name)
        (hne : initComps.take k ≠ [])
        (hchksum : chksum.length = 6 ∧ ∀ b ∈ chksum, 0x30 ≤ b ∧ b ≤ 0x37) :
        (plainEntry (initComps.take k) true .dir chksum).WellFormed :=
      plainEntry_wellFormed hname (Nat.zero_le _)
        (fun x hx => initComps_component x (List.mem_of_mem_take hx))
        (fun x hx => hdot x (List.mem_of_mem_take hx)) hne (fun _ => rfl) hchksum
    have hinit : initEntry.WellFormed :=
      plainEntry_wellFormed (by decide +kernel) (by decide +kernel) initComps_component hdot
        (List.cons_ne_nil _ _) (fun h => by cases h) (by simp)
    simp only [initArchive, List.forall_mem_cons]
    refine ⟨hdir 1 (by decide +kernel) (by decide +kernel) (by simp),
      hdir 2 (by decide +kernel) (by decide +kernel) (by simp),
      hdir 3 (by decide +kernel) (by decide +kernel) (by simp), hinit, ?_⟩
    simp
  distinct := by decide +kernel
  parents := parents_of_dropLast (by decide +kernel)
  few := by decide +kernel

theorem kernelMain_twoSegments :
    ∃ m, Mm.mmInit 0 (some [⟨0x100000, 0x100000, 0⟩]) = some m ∧
      ∃ fuel vm',
        kernelMain (lowFrames 8) Joint.noDisk Joint.noFiles fuel
          [⟨archive (initArchive.map Entry.member) [],
            UInt64.ofNat (encode (initArchive.map Entry.member) []).length,
            some (str "rootfs.tar")⟩] [] [] (fun _ _ => 0) () (Mm.bootVm 0x1000 m.pfa) =
          some (.program (eEntry (twoSegments 0x401000)) initStackTop, vm') ∧
        ∀ ph ∈ loadHeaders (twoSegments 0x401000) (phdrOffsets (twoSegments 0x401000)),
          SegmentInMemory vm' (twoSegments 0x401000) ph := by
  obtain ⟨m, hm⟩ := Mm.mmInit_isSome 0
    (show Mm.bitmapPlacementAddr [⟨0x100000, 0x100000, 0⟩] ≠ 0 by decide)
  obtain ⟨hok, -, hno⟩ := Mm.bootVm_ok hm
  have hes := initArchive_wellFormed
  have hlen : (encode (initArchive.map Entry.member) []).length < 2 ^ 63 := by
    apply length_encode_archive hes.valid (by decide +kernel) (by decide)
  have hfew : 8 ≤ 2 ^ 32 := by norm_num
  have hvalid := twoSegments_valid twoSegments_apart (by decide) (by decide)
  have hmodule : rootfsModule [⟨archive (initArchive.map Entry.member) [],
      UInt64.ofNat (encode (initArchive.map Entry.member) []).length,
      some (str "rootfs.tar")⟩] = some ⟨archive (initArchive.map Entry.member) [],
      UInt64.ofNat (encode (initArchive.map Entry.member) []).length,
      some (str "rootfs.tar")⟩ := by
    have hname : containsSubstr (str "rootfs.tar") (str "rootfs.tar") = true := by decide +kernel
    simp [rootfsModule, hname]
  refine ⟨m, hm, ?_⟩
  apply kernelMain_program (lowFrames_fresh hfew) (lowFrames_ne_zero hfew) hes hlen
    ⟨by decide +kernel, by decide +kernel⟩ hmodule (e := initEntry) (by simp [initArchive]) rfl rfl
    hok (fun v _ => hno (indices v)) hvalid (twoSegments_loads hm (by decide +kernel))
  change List.Pairwise _ (loadHeaders (twoSegments 0x401000) (phdrOffsets (twoSegments 0x401000)))
  rw [twoSegments_apart, List.pairwise_pair]
  decide +kernel

end Rhoudveine.Startup
