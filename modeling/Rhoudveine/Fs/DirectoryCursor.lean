import Rhoudveine.Lib.Cursor
import Rhoudveine.Fs.Catalogue
import Rhoudveine.Fs.Descriptors
import Rhoudveine.Fs.Crossings
import Rhoudveine.Fs.RamfsFiles

/-!
# Listing a directory while it grows

`vfs_readdir` hands the offset of the descriptor to the file system as an index.  ramfs counts
the occupied slots of its directory, DeviceFS and ProcessFS look into their only table.
-/

namespace Rhoudveine.Fs.Joint
open Descriptors (FileOps Descriptor)

variable {δ υ γ : Type} {answers : ℕ → UInt64}

/-! ## DeviceFS and ProcessFS -/

/-- `MAX_DEVFS_NODES` and `MAX_PROCFS_NODES`. -/
def maxStaticNodes : ℕ := 16

/-- A new entry; a full table takes no more. -/
def addStatic (names : List Str) (name : Str) : List Str :=
  if names.length ≥ maxStaticNodes then names else names ++ [name.take 31]

/-- The entry number `index`. -/
def staticReaddir (names : List Str) (index : UInt32) : Option ℕ :=
  if index ≥ UInt32.ofNat names.length then none else some index.toNat

/-- What `vfs_readdir` shows of an entry. -/
def staticDirent (names : List Str) (i : ℕ) : Dirent := ⟨0, (names.getD i []).take 255, vfsFile⟩

def devfsAddDevice (s : State δ υ γ) (name : Str) : State δ υ γ :=
  { s with devfsNames := addStatic s.devfsNames name }

/-- The content of the entry, which only its own reads show, is left out. -/
def procfsAddEntry (s : State δ υ γ) (name : Str) : State δ υ γ :=
  { s with procfsNames := addStatic s.procfsNames name }

def devfsReaddir (s : State δ υ γ) : UInt32 → Option ℕ := staticReaddir s.devfsNames

def procfsReaddir (s : State δ υ γ) : UInt32 → Option ℕ := staticReaddir s.procfsNames

/-! ## The operations behind the descriptors -/

/-- The pointer that `vfs_resolve_path` returns, unless it crashes. -/
def Resolved.pointer : Resolved γ → Option (Option (NodePtr γ))
  | .crash => none
  | .null => some none
  | .node n => some (some n)

/-- Paths and directories of all file systems.  `rest` has the operations of fat32 and the
transfers. -/
def fileOps (fat : Fat32Ops δ υ γ) (rest : FileOps (State δ υ γ) (NodePtr γ)) :
    FileOps (State δ υ γ) (NodePtr γ) :=
  { rest with
    resolvePath := fun s path => (vfsResolvePath fat s path).pointer.map fun p => (p, s)
    create := vfsCreate fat
    size := fun s node =>
      match node with
      | .ramfs n => (s.ramfs.ramfsNodePool n).size
      | .devfs _ | .procfs none => 0
      | .procfs (some _) | .fat32 _ _ => rest.size s node
    openOp := fun s node =>
      match node with
      | .ramfs _ | .devfs _ | .procfs _ => none
      | .fat32 _ _ => rest.openOp s node
    readdirOp := fun s node =>
      match node with
      | .ramfs n => (s.ramfs.ramfsNodePool n).ops.map fun _ index =>
          some ((ramfsReaddir s.ramfs n index).map (direntOf s.ramfs), s)
      | .devfs none => some fun index =>
          some ((devfsReaddir s index).map (staticDirent s.devfsNames), s)
      | .procfs none => some fun index =>
          some ((procfsReaddir s index).map (staticDirent s.procfsNames), s)
      | .devfs (some _) | .procfs (some _) => none
      | .fat32 _ _ => rest.readdirOp s node }

/-! ## What is to hold -/

/-- The directories of ramfs, DeviceFS and ProcessFS. -/
def IsDirectory (s : State δ υ γ) : NodePtr γ → Prop
  | .ramfs n => (s.ramfs.ramfsNodePool n).isDir
  | .devfs child | .procfs child => child = none
  | .fat32 _ _ => False

/-- The children of a ramfs directory; nodes are numbered in the order of their creation. -/
def ramfsChildren (s : Vfs) (n : ℕ) : List ℕ :=
  match (s.ramfsNodePool n).fsData with
  | .dir d => (List.range s.ramfsNodeCount).filter fun c =>
      (List.range ramfsMaxChildren).any fun i => (s.ramfsDataPool d).children i = some c
  | _ => []

/-- What is to be reported of the children, in the order of their creation. -/
def listing (s : State δ υ γ) : NodePtr γ → List Dirent
  | .ramfs n => (ramfsChildren s.ramfs n).map (direntOf s.ramfs)
  | .devfs none => (List.range s.devfsNames.length).map (staticDirent s.devfsNames)
  | .procfs none => (List.range s.procfsNames.length).map (staticDirent s.procfsNames)
  | .devfs (some _) | .procfs (some _) | .fat32 _ _ => []

/-- A call of `vfs_readdir` with its result, or a creation. -/
inductive DirEvent
  | readdir (r : ℤ) (entry : Option Dirent)
  | create (parent : Option ℕ) (name : Str) (flags : UInt32)
  | addDevice (name : Str)
  | addEntry (name : Str)

/-- One event, with `vfs_readdir` called on the descriptor `fd`. -/
def dirStep (ops : FileOps (State δ υ γ) (NodePtr γ)) (fd : ℤ)
    (st : Descriptors.State (State δ υ γ) (NodePtr γ)) (event : DirEvent)
    (st' : Descriptors.State (State δ υ γ) (NodePtr γ)) : Prop :=
  match event with
  | .readdir r entry => Descriptors.vfsReaddir ops st fd = some (r, entry, st')
  | .create parent name flags => st' = { st with files := { st.files with
      ramfs := (createIn st.files.ramfs parent name flags).2 } }
  | .addDevice name => st' = { st with files := devfsAddDevice st.files name }
  | .addEntry name => st' = { st with files := procfsAddEntry st.files name }

/-- The entries that the calls of `vfs_readdir` filled in. -/
def reported (events : List DirEvent) : List Dirent :=
  events.filterMap fun event =>
    match event with
    | .readdir _ entry => entry
    | _ => none

/-- ramfs is in a state that calls reach, and the tables of DeviceFS and ProcessFS were filled by
their own functions. -/
structure Reached (answers : ℕ → UInt64) (s : State δ υ γ) : Prop where
  ramfs : ∃ frames calls, Run (treeStep answers) (vfsInit frames) calls s.ramfs
  devfs : ∃ names : List Str, s.devfsNames = names.foldl addStatic []
  procfs : ∃ names : List Str, s.procfsNames = names.foldl addStatic []

/-! ## Static tables -/

theorem addStatic_le {names : List Str} (h : names.length ≤ maxStaticNodes) (name : Str) :
    (addStatic names name).length ≤ maxStaticNodes := by
  unfold addStatic
  split
  · exact h
  · rw [List.length_append, List.length_singleton]
    omega

theorem foldl_addStatic_le (names : List Str) : ∀ {table : List Str},
    table.length ≤ maxStaticNodes → (names.foldl addStatic table).length ≤ maxStaticNodes := by
  induction names with
  | nil => exact id
  | cons name names ih => exact fun h => ih (addStatic_le h name)

theorem staticReaddir_eq {names : List Str} (h : names.length ≤ maxStaticNodes) {index : UInt32}
    {k : ℕ} (hk : index.toNat = k) :
    staticReaddir names index = (List.range names.length)[k]? := by
  have hmax : maxStaticNodes = 16 := rfl
  have hlen : (UInt32.ofNat names.length).toNat = names.length :=
    UInt32.toNat_ofNat_of_lt' (by change _ < 2 ^ 32; omega)
  unfold staticReaddir
  by_cases hge : index ≥ UInt32.ofNat names.length
  · rw [if_pos hge, List.getElem?_eq_none]
    rw [ge_iff_le, UInt32.le_iff_toNat_le, hlen] at hge
    rw [List.length_range]
    omega
  · rw [if_neg hge]
    rw [ge_iff_le, UInt32.le_iff_toNat_le, hlen] at hge
    rw [List.getElem?_range (by omega), hk]

/-- A new entry changes nothing about the older ones. -/
theorem addStatic_listing (names : List Str) (name : Str) :
    (List.range names.length).map (staticDirent names) <+:
      (List.range (addStatic names name).length).map (staticDirent (addStatic names name)) := by
  unfold addStatic
  split
  · exact List.prefix_rfl
  · rw [List.length_append, List.length_singleton, List.range_succ, List.map_append]
    refine ⟨_, congrArg (· ++ _) (List.map_congr_left fun i hi => ?_)⟩
    rw [staticDirent, staticDirent, List.getD_append _ _ _ _ (List.mem_range.mp hi)]

/-! ## The directories of ramfs -/

section ramfs

variable {s s' : Vfs} {n dir : ℕ} {name : Str} {flags : UInt32} {roots : Finset ℕ}

theorem mem_ramfsChildren (h : Forest s roots) (hn : (s.ramfsNodePool n).isDir) {c : ℕ} :
    c ∈ ramfsChildren s n ↔ Child s n c := by
  rw [h.child_iff, ramfsChildren, (h.dir_data n hn).2]
  simp only [List.mem_filter, List.mem_range, List.any_eq_true, decide_eq_true_eq]
  constructor
  · rintro ⟨-, i, -, hi⟩
    exact ⟨i, hi⟩
  · rintro ⟨i, hi⟩
    obtain ⟨-, hlt, -, hcount, -⟩ := h.slot n i c hi
    exact ⟨hcount, i, hlt, hi⟩

theorem ramfsChildren_sorted (s : Vfs) (n : ℕ) : (ramfsChildren s n).Pairwise (· < ·) := by
  unfold ramfsChildren
  split
  · exact List.pairwise_lt_range.filter _
  · exact List.Pairwise.nil

/-- The occupied slots hold the children in the order of their creation. -/
theorem slots_eq_children (h : Tidy s) (hf : Forest s roots) (hn : (s.ramfsNodePool n).isDir) :
    (List.range ramfsMaxChildren).filterMap (s.ramfsDataPool n).children = ramfsChildren s n := by
  have hsorted : ((List.range ramfsMaxChildren).filterMap
      (s.ramfsDataPool n).children).Pairwise (· < ·) := by
    rw [List.pairwise_filterMap]
    refine List.pairwise_lt_range.imp ?_
    intro i j hij a ha b hb
    exact h.ascending n i j a b hij ha hb
  refine hsorted.eq_of_mem_iff (ramfsChildren_sorted s n) fun c => ?_
  rw [mem_ramfsChildren hf hn, hf.child_iff, List.mem_filterMap]
  constructor
  · rintro ⟨i, -, hi⟩
    exact ⟨i, hi⟩
  · rintro ⟨i, hi⟩
    exact ⟨i, List.mem_range.mpr (hf.slot n i c hi).2.1, hi⟩

theorem length_ramfsChildren_le (h : Tidy s) (hn : (s.ramfsNodePool n).isDir) :
    (ramfsChildren s n).length ≤ ramfsMaxChildren := by
  obtain ⟨roots, hf⟩ := h.forest
  rw [← slots_eq_children h hf hn]
  exact (List.length_filterMap_le _ _).trans_eq List.length_range

theorem ramfsReaddir_eq (h : Tidy s) (hn : (s.ramfsNodePool n).isDir) (index : UInt32) :
    ramfsReaddir s n index = (ramfsChildren s n)[index.toNat]? := by
  obtain ⟨roots, hf⟩ := h.forest
  unfold ramfsReaddir
  dsimp only
  rw [if_neg (not_not.mpr hn), (hf.dir_data n hn).2]
  dsimp only
  rw [slots_eq_children h hf hn]

/-- A creation puts its node behind the older children of its directory and leaves the others
alone. -/
theorem ramfsChildren_created (hf : Forest s roots) (hc : Created s dir name flags s')
    (hn : (s.ramfsNodePool n).isDir) : ramfsChildren s n <+: ramfsChildren s' n := by
  have hf' := hf.created hc
  have hlt := (hf.dir_data n hn).1
  have hcount : s'.ramfsNodeCount = s.ramfsNodeCount + 1 := by
    obtain ⟨-, -, -, -, -, -⟩ := hc
    rfl
  have hn' : (s'.ramfsNodePool n).isDir := by
    obtain ⟨-, -, -, -, -, -⟩ := hc
    rwa [enterChild_old (Nat.ne_of_lt hlt)]
  have hold (c : ℕ) (hclt : c < s.ramfsNodeCount) : Child s' n c ↔ Child s n c := by
    by_cases hd : n = dir
    · subst hd
      rw [hf.child_created hc]
      exact or_iff_left (Nat.ne_of_lt hclt)
    · rw [hf'.child_iff, hf.child_iff]
      obtain ⟨hdir, hdata, -, -, -, -⟩ := hc
      rename_i p slot
      obtain ⟨hp, hown⟩ := hf.dir_data dir hdir
      obtain rfl : dir = p := FsData.dir.inj (hown.symm.trans hdata)
      rw [enterChild_oldDir (Nat.ne_of_lt hlt) hd]
  have hmem (c : ℕ) (hclt : c < s.ramfsNodeCount) :
      c ∈ ramfsChildren s' n ↔ c ∈ ramfsChildren s n := by
    rw [mem_ramfsChildren hf' hn', mem_ramfsChildren hf hn, hold c hclt]
  -- both lists are what a filter leaves of the numbers of nodes
  unfold ramfsChildren at hmem ⊢
  rw [(hf'.dir_data n hn').2, (hf.dir_data n hn).2] at hmem ⊢
  dsimp only at hmem ⊢
  rw [hcount, List.range_succ, List.filter_append]
  refine ⟨_, congrArg (· ++ _) (List.filter_congr fun c hc => ?_)⟩
  have hclt := List.mem_range.mp hc
  have hiff := hmem c hclt
  rw [List.mem_filter, List.mem_filter, List.mem_range, List.mem_range, hcount,
    and_iff_right hclt, and_iff_right (hclt.trans (Nat.lt_succ_self _))] at hiff
  exact (Bool.eq_iff_iff.mpr hiff).symm

theorem direntOf_created (hc : Created s dir name flags s') {c : ℕ} (hlt : c < s.ramfsNodeCount) :
    direntOf s' c = direntOf s c := by
  obtain ⟨-, -, -, -, -, -⟩ := hc
  rw [direntOf, direntOf, enterChild_old (Nat.ne_of_lt hlt)]

theorem ramfs_listing_created (hf : Forest s roots) (hc : Created s dir name flags s')
    (hn : (s.ramfsNodePool n).isDir) :
    (ramfsChildren s n).map (direntOf s) <+: (ramfsChildren s' n).map (direntOf s') := by
  have hsame : (ramfsChildren s n).map (direntOf s) = (ramfsChildren s n).map (direntOf s') := by
    refine List.map_congr_left fun c hmem => ?_
    obtain ⟨i, hi⟩ := hf.child_iff.mp ((mem_ramfsChildren hf hn).mp hmem)
    exact (direntOf_created hc (hf.slot n i c hi).2.2.2.1).symm
  rw [hsame]
  exact (ramfsChildren_created hf hc hn).map _

end ramfs

/-! ## Runs -/

abbrev Table (δ υ γ : Type) := Descriptors.State (State δ υ γ) (NodePtr γ)

variable {fat : Fat32Ops δ υ γ} {rest : FileOps (State δ υ γ) (NodePtr γ)} {st st' : Table δ υ γ}
  {fd : ℤ} {dir : NodePtr γ}

/-- What holds of the file systems. -/
structure Sound (s : State δ υ γ) : Prop where
  tidy : Tidy s.ramfs
  devfs_le : s.devfsNames.length ≤ maxStaticNodes
  procfs_le : s.procfsNames.length ≤ maxStaticNodes

theorem Reached.sound {s : State δ υ γ} (h : Reached answers s) : Sound s := by
  obtain ⟨frames, calls, hrun⟩ := h.ramfs
  obtain ⟨names, hnames⟩ := h.devfs
  obtain ⟨names', hnames'⟩ := h.procfs
  refine ⟨Tidy.run hrun, ?_, ?_⟩
  · rw [hnames]
    exact foldl_addStatic_le names (Nat.zero_le _)
  · rw [hnames']
    exact foldl_addStatic_le names' (Nat.zero_le _)

/-- A descriptor of a directory that has been read up to its offset. -/
structure Reading (st : Table δ υ γ) (fd : ℤ) (dir : NodePtr γ) : Prop extends
    Sound st.files where
  live : Descriptors.liveFd st fd = some (fd.toNat, st.gFds fd.toNat)
  node : (st.gFds fd.toNat).node = some dir
  isDirectory : IsDirectory st.files dir
  cursor_le : (st.gFds fd.toNat).offset.toNat ≤ (listing st.files dir).length

theorem length_listing_le {s : State δ υ γ} (h : Sound s) (hdir : IsDirectory s dir) :
    (listing s dir).length ≤ 64 := by
  cases dir with
  | ramfs n =>
    rw [listing, List.length_map]
    exact length_ramfsChildren_le h.tidy hdir
  | devfs child =>
    obtain rfl : child = none := hdir
    rw [listing, List.length_map, List.length_range]
    exact h.devfs_le.trans (by decide)
  | procfs child =>
    obtain rfl : child = none := hdir
    rw [listing, List.length_map, List.length_range]
    exact h.procfs_le.trans (by decide)
  | fat32 v node => exact hdir.elim

/-- A creation lets the listing grow. -/
theorem createIn_listing {s : State δ υ γ} (h : Sound s) (hdir : IsDirectory s dir)
    (parent : Option ℕ) (name : Str) (flags : UInt32) :
    let s' := { s with ramfs := (createIn s.ramfs parent name flags).2 }
    Sound s' ∧ IsDirectory s' dir ∧ listing s dir <+: listing s' dir := by
  dsimp only
  have hstep : treeStep (fun _ => 0) s.ramfs (.create parent name flags)
      (createIn s.ramfs parent name flags).2 := rfl
  have htidy : Tidy (createIn s.ramfs parent name flags).2 := h.tidy.step hstep
  refine ⟨⟨htidy, h.devfs_le, h.procfs_le⟩, ?_⟩
  cases dir with
  | devfs child =>
    obtain rfl : child = none := hdir
    exact ⟨rfl, List.prefix_rfl⟩
  | procfs child =>
    obtain rfl : child = none := hdir
    exact ⟨rfl, List.prefix_rfl⟩
  | fat32 v node => exact hdir.elim
  | ramfs n =>
    obtain ⟨roots, hf⟩ := h.tidy.forest
    rcases createIn_cases s.ramfs parent name flags with heq | ⟨dir, t, -, heq, hc⟩
    · simp only [heq]
      exact ⟨hdir, List.prefix_rfl⟩
    · simp only [heq]
      refine ⟨?_, ramfs_listing_created hf hc hdir⟩
      have hlt := (hf.dir_data n hdir).1
      obtain ⟨-, -, -, -, -, -⟩ := hc
      change ((enterChild s.ramfs _ _ name flags).ramfsNodePool n).isDir
      rw [enterChild_old (Nat.ne_of_lt hlt)]
      exact hdir

theorem staticListing_grows {s : State δ υ γ} (h : Sound s) (hdir : IsDirectory s dir)
    (name : Str) :
    (Sound (devfsAddDevice s name) ∧ IsDirectory (devfsAddDevice s name) dir ∧
        listing s dir <+: listing (devfsAddDevice s name) dir) ∧
      Sound (procfsAddEntry s name) ∧ IsDirectory (procfsAddEntry s name) dir ∧
        listing s dir <+: listing (procfsAddEntry s name) dir := by
  have hdevfs : Sound (devfsAddDevice s name) :=
    ⟨h.tidy, addStatic_le h.devfs_le name, h.procfs_le⟩
  have hprocfs : Sound (procfsAddEntry s name) :=
    ⟨h.tidy, h.devfs_le, addStatic_le h.procfs_le name⟩
  cases dir with
  | ramfs n => exact ⟨⟨hdevfs, hdir, List.prefix_rfl⟩, hprocfs, hdir, List.prefix_rfl⟩
  | devfs child =>
    obtain rfl : child = none := hdir
    exact ⟨⟨hdevfs, rfl, addStatic_listing s.devfsNames name⟩, hprocfs, rfl, List.prefix_rfl⟩
  | procfs child =>
    obtain rfl : child = none := hdir
    exact ⟨⟨hdevfs, rfl, List.prefix_rfl⟩, hprocfs, rfl, addStatic_listing s.procfsNames name⟩
  | fat32 v node => exact hdir.elim

/-- The operation of a directory looks its listing up. -/
theorem readdirOp_eq (fat : Fat32Ops δ υ γ) (rest : FileOps (State δ υ γ) (NodePtr γ))
    {s : State δ υ γ} (h : Sound s) (hdir : IsDirectory s dir) :
    ∃ readdir, (fileOps fat rest).readdirOp s dir = some readdir ∧
      ∀ index, readdir index = some ((listing s dir)[index.toNat]?, s) := by
  cases dir with
  | ramfs n =>
    obtain ⟨roots, hf⟩ := h.tidy.forest
    have hops := h.tidy.ops n (hf.dir_data n hdir).1
    refine ⟨_, by simp only [fileOps, hops, Option.map_some]; rfl, fun index => ?_⟩
    rw [ramfsReaddir_eq h.tidy hdir, listing, List.getElem?_map]
  | devfs child =>
    obtain rfl : child = none := hdir
    refine ⟨_, rfl, fun index => ?_⟩
    rw [devfsReaddir, staticReaddir_eq h.devfs_le rfl, listing, List.getElem?_map]
  | procfs child =>
    obtain rfl : child = none := hdir
    refine ⟨_, rfl, fun index => ?_⟩
    rw [procfsReaddir, staticReaddir_eq h.procfs_le rfl, listing, List.getElem?_map]
  | fat32 v node => exact hdir.elim

/-- One call of `vfs_readdir`. -/
theorem Reading.readdir (fat : Fat32Ops δ υ γ) (rest : FileOps (State δ υ γ) (NodePtr γ))
    (h : Reading st fd dir) :
    Descriptors.vfsReaddir (fileOps fat rest) st fd =
      (listing st.files dir)[(st.gFds fd.toNat).offset.toNat]?.elim (some (-1, none, st))
        fun entry => some (0, some entry, st.setFd fd.toNat
          { st.gFds fd.toNat with offset := (st.gFds fd.toNat).offset + 1 }) := by
  obtain ⟨readdir, hop, hreads⟩ := readdirOp_eq fat rest h.toSound h.isDirectory
  have hlen := length_listing_le h.toSound h.isDirectory
  have hle := h.cursor_le
  have hindex : (st.gFds fd.toNat).offset.toUInt32.toNat = (st.gFds fd.toNat).offset.toNat := by
    rw [UInt64.toNat_toUInt32]
    omega
  unfold Descriptors.vfsReaddir
  rw [h.live]
  dsimp only
  rw [h.node, Option.bind_some, hop]
  dsimp only
  rw [hreads, hindex]
  cases (listing st.files dir)[(st.gFds fd.toNat).offset.toNat]? with
  | none => rfl
  | some entry => rfl

/-- The event as the cursor sees it. -/
def DirEvent.seen : DirEvent → Option (Option Dirent)
  | .readdir _ entry => some entry
  | _ => none

theorem reported_eq (events : List DirEvent) :
    reported events = Cursor.reports (events.map DirEvent.seen) := by
  unfold reported Cursor.reports
  rw [List.filterMap_map]
  congr 1
  funext event
  cases event <;> rfl

/-- Growing file systems under an unchanged descriptor. -/
theorem Reading.grow (h : Reading st fd dir) {files : State δ υ γ} (hsound : Sound files)
    (hdir : IsDirectory files dir) (hgrow : listing st.files dir <+: listing files dir) :
    Reading { st with files := files } fd dir :=
  ⟨hsound, h.live, h.node, hdir, h.cursor_le.trans hgrow.length_le⟩

theorem Reading.step (h : Reading st fd dir) {event : DirEvent}
    (hstep : dirStep (fileOps fat rest) fd st event st') :
    Reading st' fd dir ∧
      Cursor.Step (fun st : Table δ υ γ => listing st.files dir)
        (fun st => (st.gFds fd.toNat).offset.toNat) st event.seen st' := by
  cases event with
  | readdir r entry =>
    have hcall : Descriptors.vfsReaddir (fileOps fat rest) st fd = some (r, entry, st') := hstep
    rw [h.readdir] at hcall
    cases hget : (listing st.files dir)[(st.gFds fd.toNat).offset.toNat]? with
    | none =>
      rw [hget] at hcall
      cases hcall
      exact ⟨h, .exhausted hget rfl rfl⟩
    | some found =>
      rw [hget] at hcall
      cases hcall
      have hlen := length_listing_le h.toSound h.isDirectory
      have hlt := (List.getElem?_eq_some_iff.mp hget).1
      have hadd : ((st.gFds fd.toNat).offset + 1).toNat = (st.gFds fd.toNat).offset.toNat + 1 := by
        have hone : (1 : UInt64).toNat = 1 := rfl
        rw [UInt64.toNat_add, hone]
        omega
      have hself : (st.setFd fd.toNat { st.gFds fd.toNat with
          offset := (st.gFds fd.toNat).offset + 1 }).gFds fd.toNat =
            { st.gFds fd.toNat with offset := (st.gFds fd.toNat).offset + 1 } :=
        Function.update_self ..
      refine ⟨⟨h.toSound, ?_, ?_, h.isDirectory, ?_⟩, .read hget rfl ?_⟩
      -- the call moves the offset alone, and the descriptor stays live
      · have hlive := h.live
        unfold Descriptors.liveFd at hlive ⊢
        rw [hself]
        split at hlive
        · cases hlive
        · rename_i hok
          rw [if_neg hok]
      · rw [hself]
        exact h.node
      · rw [hself]
        dsimp only
        rw [hadd]
        exact hlt
      · dsimp only
        rw [hself, hadd]
  | create parent name flags =>
    obtain rfl : st' = { st with files := { st.files with
      ramfs := (createIn st.files.ramfs parent name flags).2 } } := hstep
    obtain ⟨hsound, hdir, hgrow⟩ := createIn_listing h.toSound h.isDirectory parent name flags
    exact ⟨h.grow hsound hdir hgrow, .grow hgrow rfl⟩
  | addDevice name =>
    obtain rfl : st' = { st with files := devfsAddDevice st.files name } := hstep
    obtain ⟨⟨hsound, hdir, hgrow⟩, -⟩ := staticListing_grows h.toSound h.isDirectory name
    exact ⟨h.grow hsound hdir hgrow, .grow hgrow rfl⟩
  | addEntry name =>
    obtain rfl : st' = { st with files := procfsAddEntry st.files name } := hstep
    obtain ⟨-, hsound, hdir, hgrow⟩ := staticListing_grows h.toSound h.isDirectory name
    exact ⟨h.grow hsound hdir hgrow, .grow hgrow rfl⟩

/-- A directory that was opened is read from its start. -/
theorem Reading.opened {path : Str} {flags : UInt32} (h : Sound st.files)
    (hpath : vfsResolvePath fat st.files path = .node dir) (hdir : IsDirectory st.files dir)
    (hopen : Descriptors.vfsOpen (fileOps fat rest) st path flags = some (fd, st'))
    (hok : fd ≠ -1) :
    Reading st' fd dir ∧ (st'.gFds fd.toNat).offset = 0 ∧ st'.files = st.files := by
  have hfind : Descriptors.findNode (fileOps fat rest) st.files path flags =
      some (some dir, st.files) := by
    simp only [Descriptors.findNode, fileOps, hpath, Resolved.pointer, Option.map_some]
  have hcall : Descriptors.callOpen (fileOps fat rest) st.files dir flags = some (0, st.files) := by
    cases dir with
    | ramfs n => rfl
    | devfs child => rfl
    | procfs child => rfl
    | fat32 v node => exact hdir.elim
  have hsize : (fileOps fat rest).size st.files dir = 0 := by
    cases dir with
    | ramfs n => exact h.tidy.sizeless n hdir
    | devfs child => rfl
    | procfs child =>
      obtain rfl : child = none := hdir
      rfl
    | fat32 v node => exact hdir.elim
  unfold Descriptors.vfsOpen at hopen
  rw [hfind] at hopen
  dsimp only [Descriptors.openNode] at hopen
  cases hfree : Descriptors.freeFd st with
  | none =>
    rw [hfree] at hopen
    cases hopen
    exact absurd rfl hok
  | some i =>
    obtain ⟨hge, hlt, -⟩ := Descriptors.freeFd_spec hfree
    simp only [hfree, hcall, ne_eq, not_true_eq_false, if_false, hsize, Option.some.injEq,
      Prod.mk.injEq] at hopen
    obtain ⟨rfl, rfl⟩ := hopen
    rw [Int.toNat_natCast]
    have hself : ∀ file, (({ st with files := st.files } : Table δ υ γ).setFd i file).gFds i =
        file := fun file => Function.update_self ..
    have hzero : (if flags &&& oAppend ≠ 0 then (0 : UInt32).toUInt64 else 0) = 0 := by
      split <;> rfl
    refine ⟨⟨h, ?_, ?_, hdir, ?_⟩, ?_, rfl⟩
    · have hmax : maxFds = 256 := rfl
      unfold Descriptors.liveFd
      rw [Int.toNat_natCast, hself, if_neg (by simp only [one_ne_zero, or_false]; omega)]
    · rw [Int.toNat_natCast, hself]
    · rw [Int.toNat_natCast, hself]
      dsimp only
      rw [hzero]
      exact Nat.zero_le _
    · rw [hself]
      exact hzero

/-- A directory is opened and read while it grows: what was reported is the beginning of the
listing, which the children at the open begin, and the next call reports the next child or, when
there is none, returns -1. -/
theorem readdir_reports_children {path : Str} {flags : UInt32} {start : Table δ υ γ}
    {events : List DirEvent} (hreached : Reached answers start.files)
    (hpath : vfsResolvePath fat start.files path = .node dir)
    (hdir : IsDirectory start.files dir)
    (hopen : Descriptors.vfsOpen (fileOps fat rest) start path flags = some (fd, st))
    (hok : fd ≠ -1) (hrun : Run (dirStep (fileOps fat rest) fd) st events st') :
    reported events <+: listing st'.files dir ∧
      listing start.files dir <+: listing st'.files dir ∧
      ∃ r entry next, Descriptors.vfsReaddir (fileOps fat rest) st' fd = some (r, entry, next) ∧
        (r = -1 ↔ reported events = listing st'.files dir) ∧
        (r ≠ -1 → r = 0 ∧ entry = (listing st'.files dir)[(reported events).length]?) := by
  obtain ⟨hreading, hstart, hfiles⟩ := Reading.opened hreached.sound hpath hdir hopen hok
  obtain ⟨hreading', hcursor⟩ := Run.simulate
    (P := fun st => Reading st fd dir) (fun _ _ _ h hstep => h.step hstep) hrun hreading
  obtain ⟨hreports, hlen, hgrow⟩ := Cursor.run_reports_from_start hcursor
    (by rw [hstart]; rfl)
  rw [← reported_eq] at hreports hlen
  rw [hfiles] at hgrow
  refine ⟨hreports ▸ List.take_prefix _ _, hgrow, ?_⟩
  have hcall := hreading'.readdir fat rest
  rw [← hlen] at hcall hreports
  cases hget : (listing st'.files dir)[(reported events).length]? with
  | none =>
    rw [hget] at hcall
    refine ⟨-1, none, st', hcall, iff_of_true rfl ?_, fun hne => absurd rfl hne⟩
    rw [hreports, List.take_of_length_le (List.getElem?_eq_none_iff.mp hget)]
  | some entry =>
    rw [hget] at hcall
    refine ⟨0, some entry, _, hcall, iff_of_false (by decide) fun hall => ?_, fun _ => ⟨rfl, rfl⟩⟩
    have hlt := (List.getElem?_eq_some_iff.mp hget).1
    rw [hall] at hlt
    exact lt_irrefl _ hlt

/-! ## A directory made in the root that is being read -/

def noTransfers : FileOps (State Unit Unit Unit) (NodePtr Unit) where
  resolvePath _ _ := none
  create _ _ := none
  size _ _ := 0
  openOp _ _ := none
  closeOp _ _ := none
  readOp _ _ := none
  writeOp _ _ := none
  readdirOp _ _ := none

/-- A ramfs mounted on `/`, before anything is opened. -/
def rootTable : Table Unit Unit Unit :=
  Descriptors.start { init (fun _ _ => 0) [] [] () with
    gVfsRoot := some (.ramfs 0)
    ramfs := rootOnly }

def openedRoot : ℤ × Table Unit Unit Unit :=
  (Descriptors.vfsOpen (fileOps noDisk noTransfers) rootTable (str "/") 0).get (by decide +kernel)

theorem readdir_reports_children_root :
    ∃ st', Run (dirStep (fileOps noDisk noTransfers) openedRoot.1) openedRoot.2
        [.create (some 0) (str "etc") vfsDirectory] st' ∧
      reported [.create (some 0) (str "etc") vfsDirectory] <+: listing st'.files (.ramfs 0) := by
  have hreached : Reached answers₁ rootTable.files := by
    refine ⟨⟨_, _, rootOnly_treeRun⟩, ⟨[], rfl⟩, ⟨[], rfl⟩⟩
  have hdir : IsDirectory rootTable.files (.ramfs 0) := by
    change (rootOnly.ramfsNodePool 0).isDir
    decide +kernel
  have hsome : (Descriptors.vfsOpen (fileOps noDisk noTransfers) rootTable (str "/") 0).isSome := by
    decide +kernel
  have hopen : Descriptors.vfsOpen (fileOps noDisk noTransfers) rootTable (str "/") 0 =
      some (openedRoot.1, openedRoot.2) := (Option.some_get hsome).symm
  have hok : openedRoot.1 ≠ -1 := by decide +kernel
  have hrun : Run (dirStep (fileOps noDisk noTransfers) openedRoot.1) openedRoot.2
      [.create (some 0) (str "etc") vfsDirectory] _ := .cons rfl (.nil _)
  have hroot : vfsResolvePath noDisk rootTable.files (str "/") = .node (.ramfs 0) := rfl
  exact ⟨_, hrun, (readdir_reports_children hreached hroot hdir hopen hok hrun).1⟩

end Rhoudveine.Fs.Joint
