import Rhoudveine.Fs.AllCalls

/-!
# The two copies of a name

`ramfs_create` stores a name twice, in the node, where `ramfs_readdir` shows it, and in the
directory, where `ramfs_finddir` looks for it.  The second copy has 31 bytes at most.
-/

namespace Rhoudveine.Fs
open Search

variable {answers : ℕ → UInt64} {s s' : Vfs} {roots : Finset ℕ} {dir : ℕ} {name : Str}
  {flags : UInt32}

/-! ## Calls on the pools -/

/-- The calls of the VFS and `ramfs_create` called with any pointer. -/
inductive TreeCall
  | vfs (c : AnyCall)
  | create (parent : Option ℕ) (name : Str) (flags : UInt32)

/-- A call that returns. -/
def treeStep (answers : ℕ → UInt64) (s : Vfs) (c : TreeCall) (s' : Vfs) : Prop :=
  match c with
  | .vfs c => anyStep answers s c s'
  | .create parent name flags => s' = (createIn s parent name flags).2

/-! ## What calls do to directories -/

/-- The directories and the names of all nodes are the same. -/
structure SameEntries (s s' : Vfs) : Prop where
  data : s'.ramfsDataPool = s.ramfsDataPool
  count : s'.ramfsNodeCount = s.ramfsNodeCount
  name : ∀ n, (s'.ramfsNodePool n).name = (s.ramfsNodePool n).name
  dir : ∀ n, (s'.ramfsNodePool n).isDir ↔ (s.ramfsNodePool n).isDir
  size : ∀ n, (s.ramfsNodePool n).isDir → (s'.ramfsNodePool n).size = (s.ramfsNodePool n).size

namespace SameEntries

theorem of_pool (hpool : s'.ramfsNodePool = s.ramfsNodePool)
    (hdata : s'.ramfsDataPool = s.ramfsDataPool) (hcount : s'.ramfsNodeCount = s.ramfsNodeCount) :
    SameEntries s s' where
  data := hdata
  count := hcount
  name n := by rw [hpool]
  dir n := by rw [hpool]
  size n _ := by rw [hpool]

theorem trans {s'' : Vfs} (h : SameEntries s s') (h' : SameEntries s' s'') :
    SameEntries s s'' where
  data := h'.data.trans h.data
  count := h'.count.trans h.count
  name n := (h'.name n).trans (h.name n)
  dir n := (h'.dir n).trans (h.dir n)
  size n hn := (h'.size n ((h.dir n).mpr hn)).trans (h.size n hn)

/-- A node is set whose entry stays. -/
theorem setNode {n : ℕ} {node : Node} (hname : node.name = (s.ramfsNodePool n).name)
    (hdir : node.isDir ↔ (s.ramfsNodePool n).isDir)
    (hsize : (s.ramfsNodePool n).isDir → node.size = (s.ramfsNodePool n).size) :
    SameEntries s (s.setNode n node) := by
  have hnode (m : ℕ) : (s.setNode n node).ramfsNodePool m =
      if m = n then node else s.ramfsNodePool m := by
    rw [setNode_pool, Function.update_apply]
  refine ⟨rfl, rfl, fun m => ?_, fun m => ?_, fun m hm => ?_⟩
  all_goals
    rw [hnode]
    split
    · rename_i heq
      subst heq
      first | exact hname | exact hdir | exact hsize hm
    · rfl

theorem raiseSize {n : ℕ} (hdir : ¬ (s.ramfsNodePool n).isDir) (last : UInt64) :
    SameEntries s (raiseSize s n last) := by
  unfold Fs.raiseSize
  dsimp only
  split
  · exact setNode rfl Iff.rfl fun hn => absurd hn hdir
  · exact of_pool rfl rfl rfl

theorem writeFile {n k : ℕ} {offset : UInt64} {size : UInt32} {data : ℕ → UInt8} {r : ℤ}
    (hdir : ¬ (s.ramfsNodePool n).isDir)
    (h : writeFile answers s n k offset size data = some (r, s')) : SameEntries s s' := by
  obtain ⟨file, frames, allocs, heq⟩ := writeFile_cases h
  have hstored : SameEntries s { s.setFile k file with frames := frames, allocs := allocs } :=
    of_pool rfl rfl rfl
  rcases heq with rfl | ⟨last, rfl⟩
  · exact hstored
  · refine hstored.trans (raiseSize ?_ last)
    exact hdir

theorem ramfsWrite {node : Option ℕ} {offset : UInt64} {size : UInt32} {data : ℕ → UInt8} {r : ℤ}
    (h : ramfsWrite answers s node offset size data = some (r, s')) : SameEntries s s' := by
  have hsame : SameEntries s s := of_pool rfl rfl rfl
  have hensure {n k : ℕ} {t : Vfs} {d : FsData} (ht : ensureFileData s n d = some (k, t)) :
      SameEntries s t := by
    unfold ensureFileData at ht
    split at ht
    · cases ht
      exact hsame
    · split at ht
      · cases ht
      · cases ht
        have hset : SameEntries s (s.setNode n
            { s.ramfsNodePool n with fsData := .file s.fileDataCount }) :=
          setNode rfl Iff.rfl fun _ => rfl
        exact hset.trans (of_pool rfl rfl rfl)
  unfold Fs.ramfsWrite at h
  cases node with
  | none =>
    cases h
    exact hsame
  | some n =>
    dsimp only at h
    split at h
    · cases h
      exact hsame
    · rename_i hdir
      split at h
      · cases h
        exact hsame
      · rename_i ht
        exact (hensure ht).trans (writeFile (((hensure ht).dir n).not.mpr hdir) h)

theorem vfsWrite {fd : ℤ} {buffer : ℕ → UInt8} {count : UInt64} {r : ℤ}
    (h : vfsWrite answers s fd buffer count = some (r, s')) : SameEntries s s' := by
  unfold Fs.vfsWrite at h
  split at h
  · cases h
    exact of_pool rfl rfl rfl
  · split at h
    · cases h
      exact of_pool rfl rfl rfl
    · split at h
      · cases h
      · rename_i hwrite
        cases h
        exact (ramfsWrite hwrite).trans (of_pool rfl rfl rfl)

theorem vfsRead {fd : ℤ} {count : UInt64} {r : ℤ} {bytes : List UInt8}
    (h : vfsRead s fd count = some (r, bytes, s')) : SameEntries s s' := by
  unfold Fs.vfsRead at h
  split at h
  · cases h
    exact of_pool rfl rfl rfl
  · split at h
    · cases h
      exact of_pool rfl rfl rfl
    · split at h
      · cases h
      · cases h
        exact of_pool rfl rfl rfl

theorem openNode (s : Vfs) (node : ℕ) (flags : UInt32) :
    SameEntries s (openNode s node flags).2 := by
  unfold Fs.openNode
  split <;> exact of_pool rfl rfl rfl

theorem vfsClose (s : Vfs) (fd : ℤ) : SameEntries s (vfsClose s fd).2 := by
  unfold Fs.vfsClose
  split <;> exact of_pool rfl rfl rfl

theorem vfsSeek (s : Vfs) (fd : ℤ) (offset : UInt64) (whence : ℤ) :
    SameEntries s (vfsSeek s fd offset whence).2 := by
  unfold Fs.vfsSeek
  split
  · exact of_pool rfl rfl rfl
  · split
    · exact of_pool rfl rfl rfl
    · split
      · exact of_pool rfl rfl rfl
      · split
        · split <;> exact of_pool rfl rfl rfl
        · exact of_pool rfl rfl rfl

theorem vfsReaddir (s : Vfs) (fd : ℤ) : SameEntries s (vfsReaddir s fd).2.2 := by
  unfold Fs.vfsReaddir
  split
  · exact of_pool rfl rfl rfl
  · split
    · exact of_pool rfl rfl rfl
    · split <;> exact of_pool rfl rfl rfl

theorem vfsUnmount (s : Vfs) (path : Str) : SameEntries s (vfsUnmount s path).2 := by
  unfold Fs.vfsUnmount
  split
  · exact of_pool rfl rfl rfl
  · split <;> exact of_pool rfl rfl rfl

theorem linkMount (s : Vfs) (node mp : ℕ) : SameEntries s (linkMount s node mp) := by
  have hdir := isDir_linkMount (s := s) node mp node
  rw [linkMount_self] at hdir
  exact setNode rfl hdir fun _ => rfl

end SameEntries

/-- What a call does to the directories. -/
inductive Listed (s : Vfs) : Vfs → Prop
  | same {s' : Vfs} : SameEntries s s' → Listed s s'
  | created {dir : ℕ} {name : Str} {flags : UInt32} {t s' : Vfs} :
      Created s dir name flags t → SameEntries t s' → Listed s s'
  | rooted {s' : Vfs} : SameEntries (addNode s (newNode s [slash] vfsDirectory)) s' → Listed s s'

theorem mounted_listed {path : Str} {r : ℤ} (hm : Mounted s path r s') : Listed s s' := by
  have halloc : SameEntries (addNode s (newNode s [slash] vfsDirectory)) (allocRoot s path) :=
    .of_pool rfl rfl rfl
  cases hm with
  | refused => exact .same (.of_pool rfl rfl rfl)
  | noRoot => exact .same (.of_pool rfl rfl rfl)
  | noPlace => exact .rooted halloc
  | root =>
    have hroot : SameEntries (allocRoot s path)
        { allocRoot s path with gVfsRoot := some s.ramfsNodeCount } := .of_pool rfl rfl rfl
    have hlinked := hroot.trans (.linkMount _ s.ramfsNodeCount s.gMountCount)
    exact .rooted ((halloc.trans hlinked).trans (.of_pool rfl rfl rfl))
  | @dir d =>
    exact .rooted ((halloc.trans (.linkMount _ d s.gMountCount)).trans (.of_pool rfl rfl rfl))

theorem createAt_listed {op : Vfs → ℕ → Str → ℤ × Vfs}
    (hop : ∀ s parent name, op s parent name = ramfsCreate s parent name flags) {path : Str} {r : ℤ}
    (hmade : createAt op s path = some (r, s')) : Listed s s' := by
  rcases createAt_cases hop hmade with ⟨-, rfl⟩ | ⟨-, parent, -, hc⟩
  · exact .same (.of_pool rfl rfl rfl)
  · exact .created hc (.of_pool rfl rfl rfl)

theorem createIn_listed (s : Vfs) (parent : Option ℕ) (name : Str) (flags : UInt32) :
    Listed s (createIn s parent name flags).2 := by
  rcases createIn_cases s parent name flags with heq | ⟨dir, t, -, heq, hc⟩
  · rw [heq]
    exact .same (.of_pool rfl rfl rfl)
  · rw [heq]
    exact .created hc (.of_pool rfl rfl rfl)

theorem vfsOpen_listed {path : Str} {r : ℤ} (h : vfsOpen s path flags = some (r, s')) :
    Listed s s' := by
  have hopen (t : Vfs) (node : ℕ) (heq : (r, s') = openNode t node flags) : SameEntries t s' := by
    have hs' : s' = (openNode t node flags).2 := congrArg Prod.snd heq
    rw [hs']
    exact .openNode t node flags
  rcases vfsOpen_cases h with ⟨-, rfl⟩ | ⟨node, -, heq⟩ | ⟨-, t, hmade, hafter⟩
  · exact .same (.of_pool rfl rfl rfl)
  · exact .same (hopen s node heq)
  · have htail : SameEntries t s' := by
      rcases hafter with ⟨-, rfl⟩ | ⟨node, -, heq⟩
      · exact .of_pool rfl rfl rfl
      · exact hopen t node heq
    rcases createAt_cases (fun _ _ _ => rfl) hmade with ⟨-, rfl⟩ | ⟨-, parent, -, hc⟩
    · exact .same htail
    · exact .created hc htail

theorem treeStep_listed {c : TreeCall} (hstep : treeStep answers s c s') : Listed s s' := by
  cases c with
  | create parent name flags =>
    obtain rfl : s' = (createIn s parent name flags).2 := hstep
    exact createIn_listed s parent name flags
  | vfs c =>
    cases c with
    | unmount path =>
      obtain rfl : s' = (vfsUnmount s path).2 := hstep
      exact .same (.vfsUnmount s path)
    | call c =>
      obtain ⟨reply, hcall⟩ := hstep
      cases c with
      | mount path fstype =>
        obtain ⟨⟨r, t⟩, hm, heq⟩ := Option.map_eq_some_iff.mp hcall
        cases heq
        exact mounted_listed (vfsMount_cases hm)
      | mkdir path =>
        obtain ⟨⟨r, t⟩, hm, heq⟩ := Option.map_eq_some_iff.mp hcall
        cases heq
        exact createAt_listed (fun _ _ _ => rfl) hm
      | create path =>
        obtain ⟨⟨r, t⟩, hm, heq⟩ := Option.map_eq_some_iff.mp hcall
        cases heq
        exact createAt_listed (fun _ _ _ => rfl) hm
      | «open» path flags =>
        obtain ⟨⟨r, t⟩, ho, heq⟩ := Option.map_eq_some_iff.mp hcall
        cases heq
        exact vfsOpen_listed ho
      | close fd =>
        cases hcall
        exact .same (.vfsClose s fd)
      | read fd count =>
        obtain ⟨⟨r, bytes, t⟩, hread, heq⟩ := Option.map_eq_some_iff.mp hcall
        cases heq
        exact .same (.vfsRead hread)
      | write fd buffer count =>
        obtain ⟨⟨r, t⟩, hwrite, heq⟩ := Option.map_eq_some_iff.mp hcall
        cases heq
        exact .same (.vfsWrite hwrite)
      | seek fd offset whence =>
        cases hcall
        exact .same (.vfsSeek s fd offset whence)
      | readdir fd =>
        cases hcall
        exact .same (.vfsReaddir s fd)

/-! ## Both copies agree -/

/-- What a directory stores of a child's name is the beginning of the child's own copy. -/
def Catalogued (s : Vfs) : Prop :=
  ∀ d i c, (s.ramfsDataPool d).children i = some c →
    (s.ramfsDataPool d).childNames i = (s.ramfsNodePool c).name.take 31

namespace Catalogued

theorem init (frames : UInt64 → ℕ → UInt8) : Catalogued (vfsInit frames) := by
  intro _ _ _ hc
  cases hc

theorem same (h : Catalogued s) (hsame : SameEntries s s') : Catalogued s' := by
  intro d i c hc
  rw [hsame.data] at hc ⊢
  rw [hsame.name]
  exact h d i c hc

theorem created (h : Catalogued s) (hf : Forest s roots) (hc : Created s dir name flags s') :
    Catalogued s' := by
  obtain ⟨hdir, hdata, -, -, -, -⟩ := hc
  rename_i p slot
  obtain ⟨hp, hown⟩ := hf.dir_data dir hdir
  obtain rfl : dir = p := FsData.dir.inj (hown.symm.trans hdata)
  intro d i c hentered
  rcases enterChild_child hp hentered with ⟨rfl, rfl, rfl⟩ | ⟨hnew, hc⟩
  · rw [enterChild_parent hp, enterChild_new]
    dsimp only [newNode]
    rw [Function.update_self, List.take_take]
    rfl
  · have hlt := (hf.slot d i c hc).2.2.2.1
    rw [enterChild_old (Nat.ne_of_lt hlt), ← h d i c hc]
    by_cases hd : d = dir
    · subst hd
      rw [enterChild_parent hp] at hentered ⊢
      dsimp only at hentered ⊢
      have hi : i ≠ slot := by
        rintro rfl
        rw [Function.update_self] at hentered
        exact absurd (Option.some.inj hentered) (Nat.ne_of_gt hlt)
      rw [Function.update_of_ne hi]
    · rw [enterChild_oldDir hnew hd]

theorem addRoot (h : Catalogued s) (hf : Forest s roots) (root : Str) :
    Catalogued (addNode s (newNode s root vfsDirectory)) := by
  intro d i c hc
  by_cases hnew : d = s.ramfsNodeCount
  · rw [hnew, addNode_newDir] at hc
    cases hc
  · rw [addNode_oldDir _ _ hnew] at hc ⊢
    have hlt := (hf.slot d i c hc).2.2.2.1
    rw [addNode_old _ _ (Nat.ne_of_lt hlt)]
    exact h d i c hc

theorem listed (h : Catalogued s) (hf : Forest s roots) (hl : Listed s s') : Catalogued s' := by
  cases hl with
  | same hsame => exact h.same hsame
  | created hc hsame => exact (h.created hf hc).same hsame
  | rooted hsame => exact (h.addRoot hf [slash]).same hsame

end Catalogued

/-! ## Slots are filled in order -/

/-- A later slot holds a younger node. -/
def Ascending (s : Vfs) : Prop :=
  ∀ d i j a b, i < j → (s.ramfsDataPool d).children i = some a →
    (s.ramfsDataPool d).children j = some b → a < b

namespace Ascending

theorem init (frames : UInt64 → ℕ → UInt8) : Ascending (vfsInit frames) := by
  intro _ _ _ _ _ _ ha
  cases ha

theorem same (h : Ascending s) (hsame : SameEntries s s') : Ascending s' := by
  intro d i j a b hij ha hb
  rw [hsame.data] at ha hb
  exact h d i j a b hij ha hb

theorem created (h : Ascending s) (hf : Forest s roots) (hc : Created s dir name flags s') :
    Ascending s' := by
  obtain ⟨hdir, hdata, hfree, -, -, -⟩ := hc
  rename_i p slot
  obtain ⟨hp, hown⟩ := hf.dir_data dir hdir
  obtain rfl : dir = p := FsData.dir.inj (hown.symm.trans hdata)
  intro d i j a b hij ha hb
  rcases enterChild_child hp ha with ⟨rfl, rfl, rfl⟩ | ⟨-, ha⟩
  · rcases enterChild_child hp hb with ⟨-, rfl, -⟩ | ⟨-, hb⟩
    · exact absurd hij (lt_irrefl j)
    · -- behind the first free slot there are only free ones
      rw [hf.packed d i j hij.le hfree] at hb
      cases hb
  · rcases enterChild_child hp hb with ⟨-, -, rfl⟩ | ⟨-, hb⟩
    · exact (hf.slot d i a ha).2.2.2.1
    · exact h d i j a b hij ha hb

theorem addRoot (h : Ascending s) (root : Str) :
    Ascending (addNode s (newNode s root vfsDirectory)) := by
  intro d i j a b hij ha hb
  by_cases hnew : d = s.ramfsNodeCount
  · rw [hnew, addNode_newDir] at ha
    cases ha
  · rw [addNode_oldDir _ _ hnew] at ha hb
    exact h d i j a b hij ha hb

theorem listed (h : Ascending s) (hf : Forest s roots) (hl : Listed s s') : Ascending s' := by
  cases hl with
  | same hsame => exact h.same hsame
  | created hc hsame => exact (h.created hf hc).same hsame
  | rooted hsame => exact (h.addRoot [slash]).same hsame

end Ascending

/-! ## Directories have no size -/

def Sizeless (s : Vfs) : Prop := ∀ n, (s.ramfsNodePool n).isDir → (s.ramfsNodePool n).size = 0

namespace Sizeless

theorem init (frames : UInt64 → ℕ → UInt8) : Sizeless (vfsInit frames) := fun _ _ => rfl

theorem same (h : Sizeless s) (hsame : SameEntries s s') : Sizeless s' := by
  intro n hn
  have hdir := (hsame.dir n).mp hn
  rw [hsame.size n hdir]
  exact h n hdir

theorem addNode (h : Sizeless s) (name : Str) (flags : UInt32) :
    Sizeless (addNode s (newNode s name flags)) := by
  intro n hn
  by_cases hnew : n = s.ramfsNodeCount
  · rw [hnew, addNode_new]
    rfl
  · rw [addNode_old _ _ hnew] at hn ⊢
    exact h n hn

theorem listed (h : Sizeless s) (hl : Listed s s') : Sizeless s' := by
  cases hl with
  | same hsame => exact h.same hsame
  | @created _ name flags _ _ hc hsame =>
    have hadded : Sizeless _ := h.addNode name flags
    obtain ⟨-, -, -, -, -, -⟩ := hc
    exact Sizeless.same (s := enterChild s _ _ name flags) hadded hsame
  | rooted hsame => exact (h.addNode [slash] vfsDirectory).same hsame

end Sizeless

/-! ## All states that calls reach -/

theorem Grounded.treeStep (h : Grounded s) {c : TreeCall} (hstep : treeStep answers s c s') :
    Grounded s' := by
  cases c with
  | vfs c => exact h.step hstep
  | create parent name flags =>
    obtain rfl : s' = (createIn s parent name flags).2 := hstep
    rcases createIn_cases s parent name flags with heq | ⟨dir, t, -, heq, hc⟩
    · rwa [heq]
    · rw [heq]
      exact h.created hc

/-- What holds of the directories. -/
structure Tidy (s : Vfs) : Prop extends Grounded s where
  catalogued : Catalogued s
  ascending : Ascending s
  sizeless : Sizeless s

theorem Tidy.init (frames : UInt64 → ℕ → UInt8) : Tidy (vfsInit frames) :=
  ⟨Grounded.init frames, Catalogued.init frames, Ascending.init frames, Sizeless.init frames⟩

theorem Tidy.step (h : Tidy s) {c : TreeCall} (hstep : treeStep answers s c s') : Tidy s' := by
  obtain ⟨roots, hf⟩ := h.forest
  have hl := treeStep_listed hstep
  exact ⟨h.toGrounded.treeStep hstep, h.catalogued.listed hf hl, h.ascending.listed hf hl,
    h.sizeless.listed hl⟩

theorem Tidy.run {frames : UInt64 → ℕ → UInt8} {calls : List TreeCall}
    (hrun : Run (treeStep answers) (vfsInit frames) calls s) : Tidy s :=
  hrun.invariant (fun _ _ _ h hstep => h.step hstep) (init frames)

/-! ## Lookups and listings after a creation -/

/-- The new node is found by its name, other lookups are as before, and what is listed is what
its name leads to. -/
structure Entered (s : Vfs) (dir : ℕ) (name : Str) (flags : UInt32) (s' : Vfs) : Prop where
  found : ramfsFinddir s' dir name = some s.ramfsNodeCount
  flagged : (s'.ramfsNodePool s.ramfsNodeCount).flags = flags
  others : ∀ x, x ≠ name → ramfsFinddir s' dir x = ramfsFinddir s dir x
  listed : ∀ index c, ramfsReaddir s' dir index = some c →
    ramfsFinddir s' dir (s'.ramfsNodePool c).name = some c

/-- The children have different names of at most 31 bytes. -/
structure NamesApart (s : Vfs) (dir : ℕ) : Prop where
  short : ∀ c, Child s dir c → (s.ramfsNodePool c).name.length ≤ 31
  apart : ∀ c c', Child s dir c → Child s dir c' →
    (s.ramfsNodePool c).name = (s.ramfsNodePool c').name → c = c'

theorem Forest.child_iff (h : Forest s roots) {c : ℕ} :
    Child s dir c ↔ ∃ i, (s.ramfsDataPool dir).children i = some c :=
  exists_congr fun _ => h.slot_iff

/-- The listing shows the children. -/
theorem Forest.readdir_iff (h : Forest s roots) {c : ℕ} :
    (∃ index, ramfsReaddir s dir index = some c) ↔ Child s dir c := by
  rw [h.child_iff]
  constructor
  · rintro ⟨index, hindex⟩
    unfold ramfsReaddir at hindex
    dsimp only at hindex
    split at hindex
    · cases hindex
    · rename_i hdir
      rw [(h.dir_data dir (not_not.mp hdir)).2] at hindex
      obtain ⟨i, -, hi⟩ := List.mem_filterMap.mp (List.mem_of_getElem? hindex)
      exact ⟨i, hi⟩
  · rintro ⟨i, hi⟩
    obtain ⟨hdir, hlt, -⟩ := h.slot dir i c hi
    have hmem : c ∈ (List.range ramfsMaxChildren).filterMap (s.ramfsDataPool dir).children :=
      List.mem_filterMap.mpr ⟨i, List.mem_range.mpr hlt, hi⟩
    obtain ⟨k, hk⟩ := List.mem_iff_getElem?.mp hmem
    have hlen := (List.length_filterMap_le (s.ramfsDataPool dir).children
      (List.range ramfsMaxChildren))
    obtain ⟨hk', -⟩ := List.getElem?_eq_some_iff.mp hk
    rw [List.length_range] at hlen
    have hsmall : k < 2 ^ 32 := (hk'.trans_le hlen).trans (by decide)
    refine ⟨UInt32.ofNat k, ?_⟩
    unfold ramfsReaddir
    dsimp only
    rw [if_neg (not_not.mpr hdir), (h.dir_data dir hdir).2, UInt32.toNat_ofNat_of_lt' hsmall]
    exact hk

/-- A stored name is found, in the first slot that has it. -/
theorem Forest.finddir_stored (h : Forest s roots) {i c : ℕ}
    (hi : (s.ramfsDataPool dir).children i = some c) :
    ∃ c', ramfsFinddir s dir ((s.ramfsDataPool dir).childNames i) = some c' := by
  obtain ⟨hdir, hlt, -⟩ := h.slot dir i c hi
  by_contra hnone
  rw [← Option.ne_none_iff_exists', not_not] at hnone
  unfold ramfsFinddir at hnone
  dsimp only at hnone
  rw [if_neg (not_not.mpr hdir), (h.dir_data dir hdir).2] at hnone
  have hslot := firstSome_eq_none.mp hnone i (Nat.zero_le i) (by omega)
  rw [hi, Option.bind_some, if_pos rfl] at hslot
  cases hslot

theorem Forest.child_created (h : Forest s roots) (hc : Created s dir name flags s') {c : ℕ} :
    Child s' dir c ↔ Child s dir c ∨ c = s.ramfsNodeCount := by
  rw [(h.created hc).child_iff, h.child_iff]
  obtain ⟨hdir, hdata, hfree, -, -, -⟩ := hc
  rename_i p slot
  obtain ⟨hp, hown⟩ := h.dir_data dir hdir
  obtain rfl : dir = p := FsData.dir.inj (hown.symm.trans hdata)
  constructor
  · rintro ⟨i, hi⟩
    rcases enterChild_child hp hi with ⟨-, -, rfl⟩ | ⟨-, hi⟩
    · exact Or.inr rfl
    · exact Or.inl ⟨i, hi⟩
  · rw [enterChild_parent hp]
    rintro (⟨i, hi⟩ | rfl)
    · have hne : i ≠ slot := by
        rintro rfl
        rw [hfree] at hi
        cases hi
      exact ⟨i, (Function.update_of_ne hne _ _).trans hi⟩
    · exact ⟨slot, Function.update_self ..⟩

/-- In a directory of short and different names, each child is what its name leads to. -/
theorem NamesApart.finddir (h : NamesApart s dir) (hf : Forest s roots) (hcat : Catalogued s)
    {c : ℕ} (hc : Child s dir c) : ramfsFinddir s dir (s.ramfsNodePool c).name = some c := by
  have hstored (c : ℕ) (hc : Child s dir c) (i : ℕ)
      (hi : (s.ramfsDataPool dir).children i = some c) :
      (s.ramfsDataPool dir).childNames i = (s.ramfsNodePool c).name := by
    rw [hcat dir i c hi, List.take_of_length_le (h.short c hc)]
  obtain ⟨i, hi⟩ := hf.child_iff.mp hc
  obtain ⟨c', hc'⟩ := hf.finddir_stored hi
  obtain ⟨-, j, hj, hname⟩ := hf.finddir_slot hc'
  have hchild' : Child s dir c' := hf.child_iff.mpr ⟨j, hj⟩
  rw [hstored c hc i hi] at hc' hname
  rw [hstored c' hchild' j hj] at hname
  rwa [h.apart c' c hchild' hc hname] at hc'

/-- A successful `ramfs_create` enters the node exactly when its name is new and fits, and the
names that are there are different and fit. -/
theorem ramfsCreate_entered_iff {frames : UInt64 → ℕ → UInt8} {calls : List TreeCall}
    (hrun : Run (treeStep answers) (vfsInit frames) calls s)
    (hok : ramfsCreate s dir name flags = (0, s')) :
    Entered s dir name flags s' ↔
      ramfsFinddir s dir name = none ∧ name.length ≤ 31 ∧ NamesApart s dir := by
  have hg := Tidy.run hrun
  obtain ⟨roots, hf⟩ := hg.forest
  have hc : Created s dir name flags s' := by
    rcases ramfsCreate_cases s dir name flags with heq | ⟨t, heq, hc⟩
    · rw [hok] at heq
      cases congrArg Prod.fst heq
    · rw [hok] at heq
      obtain rfl := (Prod.mk.inj heq).2
      exact hc
  have hfind := hf.finddir_created hc
  have hnode : s'.ramfsNodePool s.ramfsNodeCount = newNode s name flags ∧
      ∀ c < s.ramfsNodeCount, s'.ramfsNodePool c = s.ramfsNodePool c := by
    obtain ⟨-, -, -, -, -, -⟩ := hc
    exact ⟨enterChild_new, fun c hlt => enterChild_old (Nat.ne_of_lt hlt)⟩
  have hlt {c : ℕ} (hchild : Child s dir c) : c < s.ramfsNodeCount := by
    obtain ⟨i, hi⟩ := hf.child_iff.mp hchild
    exact (hf.slot dir i c hi).2.2.2.1
  constructor
  · intro h
    have hnew := h.found
    rw [hfind] at hnew
    have hnone : ramfsFinddir s dir name = none := by
      cases hold : ramfsFinddir s dir name with
      | none => rfl
      | some c =>
        rw [hold, Option.some_or] at hnew
        exact absurd (Option.some.inj hnew) (Nat.ne_of_lt (hg.toGrounded.child_lt hold))
    have hfits : name = name.take 31 := by
      by_contra hcut
      rw [hnone, if_neg hcut] at hnew
      cases hnew
    -- an old child is found by its name before the call too
    have hlisted (c : ℕ) (hchild : Child s dir c) :
        ramfsFinddir s dir (s.ramfsNodePool c).name = some c := by
      obtain ⟨index, hindex⟩ :=
        (hf.created hc).readdir_iff.mpr ((hf.child_created hc).mpr (Or.inl hchild))
      have hfound := h.listed index c hindex
      rw [hnode.2 c (hlt hchild), hfind] at hfound
      cases hold : ramfsFinddir s dir (s.ramfsNodePool c).name with
      | some c' =>
        rw [hold, Option.some_or] at hfound
        exact hfound
      | none =>
        rw [hold, Option.none_or] at hfound
        split at hfound
        · exact absurd (Option.some.inj hfound).symm (Nat.ne_of_lt (hlt hchild))
        · cases hfound
    refine ⟨hnone, ?_, fun c hchild => ?_, fun c c' hchild hchild' hsame => ?_⟩
    · rw [hfits]
      exact List.length_take_le _ _
    · obtain ⟨-, i, hi, hname⟩ := hf.finddir_slot (hlisted c hchild)
      rw [← hname]
      exact hg.name_le dir i (by simp [hi])
    · have hboth := hlisted c hchild
      rw [hsame, hlisted c' hchild'] at hboth
      exact (Option.some.inj hboth).symm
  · rintro ⟨hnone, hle, hnames⟩
    have hfits : name.take 31 = name := List.take_of_length_le hle
    have hwhole : name.take 255 = name := List.take_of_length_le (hle.trans (by decide))
    have hfound : ramfsFinddir s' dir name = some s.ramfsNodeCount := by
      rw [hfind, hnone, hfits, if_pos rfl, Option.none_or]
    refine ⟨hfound, ?_, fun x hx => ?_, fun index c hindex => ?_⟩
    · rw [hnode.1]
      rfl
    · rw [hfind, hfits, if_neg hx, Option.or_none]
    · have hchild := (hf.created hc).readdir_iff.mp ⟨index, hindex⟩
      rcases (hf.child_created hc).mp hchild with hold | rfl
      · rw [hnode.2 c (hlt hold), hfind, hnames.finddir hf hg.catalogued hold, Option.some_or]
      · rw [hnode.1]
        dsimp only [newNode]
        rwa [hwhole]

theorem rootOnly_treeRun : Run (treeStep answers) (vfsInit fun _ _ => 0)
    [.vfs (.call (.mount (str "/") (str "ramfs")))] rootOnly := by
  have hstep : treeStep answers (vfsInit fun _ _ => 0)
      (.vfs (.call (.mount (str "/") (str "ramfs")))) rootOnly :=
    ⟨.ofValue 0, by rw [vfsCall, ramfsRoot_mount]; rfl⟩
  exact .cons hstep (.nil _)

/-- A first directory in the root. -/
theorem ramfsCreate_entered_iff_etc :
    ∃ s', ramfsCreate rootOnly 0 (str "etc") vfsDirectory = (0, s') ∧
      (Entered rootOnly 0 (str "etc") vfsDirectory s' ↔
        ramfsFinddir rootOnly 0 (str "etc") = none ∧ (str "etc").length ≤ 31 ∧
          NamesApart rootOnly 0) := by
  have hok : (ramfsCreate rootOnly 0 (str "etc") vfsDirectory).1 = 0 := by decide +kernel
  have hrun : Run (treeStep answers₁) _ _ rootOnly := rootOnly_treeRun
  exact ⟨_, Prod.ext hok rfl, ramfsCreate_entered_iff hrun (Prod.ext hok rfl)⟩

/-- 32 bytes. -/
def longName : Str := List.replicate 32 0x61

/-- The file is made and not found. -/
theorem longName_not_found :
    ¬ ∀ (calls : List TreeCall) (s s' : Vfs) (dir : ℕ) (name : Str) (flags : UInt32),
      Run (treeStep answers₁) (vfsInit fun _ _ => 0) calls s → name ≠ [] → slash ∉ name →
        name.length ≤ 255 → ramfsFinddir s dir name = none →
          ramfsCreate s dir name flags = (0, s') → Entered s dir name flags s' := by
  intro hall
  have hok : (ramfsCreate rootOnly 0 longName vfsFile).1 = 0 := by decide +kernel
  have hnone : ramfsFinddir rootOnly 0 longName = none := by decide +kernel
  have hlost : ramfsFinddir (ramfsCreate rootOnly 0 longName vfsFile).2 0 longName = none := by
    decide +kernel
  have hfound := (hall _ rootOnly (ramfsCreate rootOnly 0 longName vfsFile).2 0 longName vfsFile
    rootOnly_treeRun (by decide) (by decide) (by decide) hnone (Prod.ext hok rfl)).found
  rw [hlost] at hfound
  cases hfound

end Rhoudveine.Fs
