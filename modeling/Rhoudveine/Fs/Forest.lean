import Rhoudveine.Fs.Setup
import Rhoudveine.Fs.Whole

/-!
# The directory trees

Any number of ramfs mounts, each with a tree of its own.  A new node has a higher index than its
directory, so no directory is below itself.
-/

namespace Rhoudveine.Fs
open Relation

variable {answers : ℕ → UInt64} {s s' : Vfs} {roots : Finset ℕ}

/-! ## What is to hold -/

/-- Slot `i` of the directory `d` holds `n`. -/
def Slot (s : Vfs) (d i n : ℕ) : Prop :=
  d < s.ramfsNodeCount ∧ (s.ramfsNodePool d).isDir ∧ i < ramfsMaxChildren ∧
    ∃ b, (s.ramfsNodePool d).fsData = .dir b ∧ (s.ramfsDataPool b).children i = some n

def Child (s : Vfs) (d n : ℕ) : Prop := ∃ i, Slot s d i n

/-- The shape of the pools, given the nodes that mounts added. -/
structure WellShaped (s : Vfs) (roots : Finset ℕ) : Prop where
  one_slot : ∀ n < s.ramfsNodeCount, n ∉ roots → ∃! p : ℕ × ℕ, Slot s p.1 p.2 n
  no_slot : ∀ r ∈ roots, ∀ d i, ¬ Slot s d i r
  acyclic : ∀ d, ¬ TransGen (Child s) d d
  packed : ∀ d b i j, d < s.ramfsNodeCount → (s.ramfsNodePool d).isDir →
    (s.ramfsNodePool d).fsData = .dir b → i ≤ j → (s.ramfsDataPool b).children i = none →
    (s.ramfsDataPool b).children j = none
  dir_data : ∀ n < s.ramfsNodeCount, (s.ramfsNodePool n).isDir →
    (s.ramfsNodePool n).fsData = .dir n
  file_data : ∀ n < s.ramfsNodeCount, ¬ (s.ramfsNodePool n).isDir →
    (s.ramfsNodePool n).fsData = .null ∨
      ∃ k < s.fileDataCount, (s.ramfsNodePool n).fsData = .file k ∧
        ∀ m < s.ramfsNodeCount, (s.ramfsNodePool m).fsData = .file k → m = n

/-- A state with the nodes that mounts added. -/
structure Rooted where
  vfs : Vfs
  roots : Finset ℕ

/-- The operations of ramfs, called with any pointers, and `vfs_mount`. -/
inductive RamfsCall
  | mount (path fstype : Str)
  | mountOp (mp : ℕ)
  | create (parent : Option ℕ) (name : Str) (flags : UInt32)
  | mkdir (parent : Option ℕ) (name : Str)
  | write (node : Option ℕ) (offset : UInt64) (size : UInt32) (data : ℕ → UInt8)

/-- `ramfs_create` with its check for a null pointer. -/
def createIn (s : Vfs) (parent : Option ℕ) (name : Str) (flags : UInt32) : ℤ × Vfs :=
  match parent with
  | none => (-1, s)
  | some parent => ramfsCreate s parent name flags

theorem createIn_cases (s : Vfs) (parent : Option ℕ) (name : Str) (flags : UInt32) :
    createIn s parent name flags = (-1, s) ∨
      ∃ dir t, parent = some dir ∧ createIn s parent name flags = (0, t) ∧
        Created s dir name flags t := by
  cases parent with
  | none => exact Or.inl rfl
  | some dir =>
    rcases ramfsCreate_cases s dir name flags with heq | ⟨t, heq, hc⟩
    · exact Or.inl heq
    · exact Or.inr ⟨dir, t, rfl, heq, hc⟩

/-- The trees with the nodes that a mount added. -/
def Rooted.grow (t : Rooted) (s : Vfs) : Rooted :=
  ⟨s, t.roots ∪ Finset.Ico t.vfs.ramfsNodeCount s.ramfsNodeCount⟩

/-- One call; `none` if it crashes. -/
def ramfsStep (answers : ℕ → UInt64) (t : Rooted) : RamfsCall → Option Rooted
  | .mount path fstype => (vfsMount t.vfs path fstype).map fun out => t.grow out.2
  | .mountOp mp => some (t.grow (ramfsMountOp t.vfs mp).2)
  | .create parent name flags => some { t with vfs := (createIn t.vfs parent name flags).2 }
  | .mkdir parent name => some { t with vfs := (createIn t.vfs parent name vfsDirectory).2 }
  | .write node offset size data =>
    (ramfsWrite answers t.vfs node offset size data).map fun out => { t with vfs := out.2 }

abbrev RamfsRun (answers : ℕ → UInt64) (frames : UInt64 → ℕ → UInt8) (calls : List RamfsCall)
    (t : Rooted) : Prop :=
  Run (fun t c t' => ramfsStep answers t c = some t') ⟨vfsInit frames, ∅⟩ calls t

/-! ## The trees -/

structure Forest (s : Vfs) (roots : Finset ℕ) : Prop where
  dir_data : ∀ n, (s.ramfsNodePool n).isDir →
    n < s.ramfsNodeCount ∧ (s.ramfsNodePool n).fsData = .dir n
  slot : ∀ d i c, (s.ramfsDataPool d).children i = some c →
    (s.ramfsNodePool d).isDir ∧ i < ramfsMaxChildren ∧ d < c ∧ c < s.ramfsNodeCount ∧ c ∉ roots
  packed : ∀ d i j, i ≤ j → (s.ramfsDataPool d).children i = none →
    (s.ramfsDataPool d).children j = none
  inj : ∀ d i d' i' c, (s.ramfsDataPool d).children i = some c →
    (s.ramfsDataPool d').children i' = some c → d = d' ∧ i = i'
  held : ∀ n < s.ramfsNodeCount, n ∉ roots → ∃ d i, (s.ramfsDataPool d).children i = some n
  root_lt : ∀ r ∈ roots, r < s.ramfsNodeCount

namespace Forest

theorem init (frames : UInt64 → ℕ → UInt8) : Forest (vfsInit frames) ∅ where
  dir_data _ hn := by
    have hzero : ¬ Node.zero.isDir := by decide
    exact absurd hn hzero
  slot _ _ _ hc := by cases hc
  packed _ _ _ _ _ := rfl
  inj _ _ _ _ _ hc := by cases hc
  held _ hn := absurd hn (Nat.not_lt_zero _)
  root_lt _ hr := by simp at hr

theorem slot_iff (h : Forest s roots) {d i n : ℕ} :
    Slot s d i n ↔ (s.ramfsDataPool d).children i = some n := by
  constructor
  · rintro ⟨-, hdir, -, b, hb, hc⟩
    obtain rfl : b = d := by
      rw [(h.dir_data d hdir).2] at hb
      exact (FsData.dir.inj hb).symm
    exact hc
  · intro hc
    obtain ⟨hdir, hi, -⟩ := h.slot d i n hc
    obtain ⟨hd, hdata⟩ := h.dir_data d hdir
    exact ⟨hd, hdir, hi, d, hdata, hc⟩

theorem child_lt (h : Forest s roots) {d n : ℕ} (hc : Child s d n) : d < n := by
  obtain ⟨i, hi⟩ := hc
  exact (h.slot d i n (h.slot_iff.mp hi)).2.2.1

/-- The index grows along every way down. -/
theorem transGen_lt (h : Forest s roots) {d n : ℕ} (hc : TransGen (Child s) d n) : d < n := by
  induction hc with
  | single hc => exact h.child_lt hc
  | tail _ hc ih => exact ih.trans (h.child_lt hc)

/-- Only file data changed. -/
theorem sameTree (h : Forest s roots) (ht : SameTree s s') : Forest s' roots where
  dir_data n hn := by
    have hn := (ht.isDir_iff n).mp hn
    rw [ht.count, ht.dir_data n hn]
    exact h.dir_data n hn
  slot d i c hc := by
    rw [ht.data] at hc
    rw [ht.isDir_iff, ht.count]
    exact h.slot d i c hc
  packed := by
    rw [ht.data]
    exact h.packed
  inj := by
    rw [ht.data]
    exact h.inj
  held := by
    rw [ht.data, ht.count]
    exact h.held
  root_lt := by
    rw [ht.count]
    exact h.root_lt

theorem congr (h : Forest s roots) (hpool : s'.ramfsNodePool = s.ramfsNodePool)
    (hdata : s'.ramfsDataPool = s.ramfsDataPool) (hcount : s'.ramfsNodeCount = s.ramfsNodeCount) :
    Forest s' roots where
  dir_data := by
    rw [hpool, hcount]
    exact h.dir_data
  slot := by
    rw [hdata, hpool, hcount]
    exact h.slot
  packed := by
    rw [hdata]
    exact h.packed
  inj := by
    rw [hdata]
    exact h.inj
  held := by
    rw [hdata, hcount]
    exact h.held
  root_lt := by
    rw [hcount]
    exact h.root_lt

theorem linkMount (h : Forest s roots) (node mp : ℕ) : Forest (linkMount s node mp) roots where
  dir_data n hn := by
    rw [isDir_linkMount] at hn
    by_cases hnode : n = node
    · subst hnode
      rw [linkMount_self]
      exact h.dir_data n hn
    · rw [linkMount_of_ne _ _ hnode]
      exact h.dir_data n hn
  slot d i c hc := by
    rw [isDir_linkMount]
    exact h.slot d i c hc
  packed := h.packed
  inj := h.inj
  held := h.held
  root_lt := h.root_lt

/-- No slot holds the next node yet, and its block is empty. -/
theorem next_free (h : Forest s roots) (d i : ℕ) :
    (s.ramfsDataPool d).children i ≠ some s.ramfsNodeCount := by
  intro hc
  exact lt_irrefl _ (h.slot d i _ hc).2.2.2.1

theorem next_empty (h : Forest s roots) (i : ℕ) :
    (s.ramfsDataPool s.ramfsNodeCount).children i = none := by
  by_contra hne
  obtain ⟨c, hc⟩ := Option.ne_none_iff_exists'.mp hne
  obtain ⟨hdir, -⟩ := h.slot _ i c hc
  exact lt_irrefl _ (h.dir_data _ hdir).1

theorem children_addNode (h : Forest s roots) (node : Node) (d : ℕ) :
    ((addNode s node).ramfsDataPool d).children = (s.ramfsDataPool d).children := by
  by_cases hd : d = s.ramfsNodeCount
  · subst hd
    rw [addNode_newDir]
    funext i
    exact (h.next_empty i).symm
  · rw [addNode_oldDir _ _ hd]

theorem dir_addNode (h : Forest s roots) {name : Str} {flags : UInt32} {n : ℕ}
    (hn : ((addNode s (newNode s name flags)).ramfsNodePool n).isDir) :
    n < s.ramfsNodeCount + 1 ∧
      ((addNode s (newNode s name flags)).ramfsNodePool n).fsData = .dir n := by
  by_cases hnew : n = s.ramfsNodeCount
  · subst hnew
    rw [addNode_new] at hn ⊢
    exact ⟨Nat.lt_succ_self _, if_pos hn⟩
  · rw [addNode_old _ _ hnew] at hn ⊢
    obtain ⟨hlt, hdata⟩ := h.dir_data n hn
    exact ⟨hlt.trans (Nat.lt_succ_self _), hdata⟩

theorem dir_lt (h : Forest s roots) {n : ℕ} (hn : (s.ramfsNodePool n).isDir) :
    n ≠ s.ramfsNodeCount := Nat.ne_of_lt (h.dir_data n hn).1

/-- A new root. -/
theorem addRoot (h : Forest s roots) (name : Str) :
    Forest (addNode s (newNode s name vfsDirectory)) (insert s.ramfsNodeCount roots) where
  dir_data _ hn := h.dir_addNode hn
  slot d i c hc := by
    rw [h.children_addNode] at hc
    obtain ⟨hdir, hi, hlt, hcount, hroot⟩ := h.slot d i c hc
    rw [addNode_old _ _ (h.dir_lt hdir)]
    refine ⟨hdir, hi, hlt, hcount.trans (Nat.lt_succ_self _), ?_⟩
    rw [Finset.mem_insert, not_or]
    exact ⟨Nat.ne_of_lt hcount, hroot⟩
  packed d i j hij hnone := by
    rw [h.children_addNode] at hnone ⊢
    exact h.packed d i j hij hnone
  inj d i d' i' c hc hc' := by
    rw [h.children_addNode] at hc hc'
    exact h.inj d i d' i' c hc hc'
  held n hn hroot := by
    obtain ⟨hne, hroot⟩ := not_or.mp (Finset.mem_insert.not.mp hroot)
    obtain ⟨d, i, hc⟩ := h.held n (Nat.lt_of_le_of_ne (Nat.le_of_lt_succ hn) hne) hroot
    refine ⟨d, i, ?_⟩
    rw [h.children_addNode]
    exact hc
  root_lt r hr := by
    rcases Finset.mem_insert.mp hr with rfl | hr
    · exact Nat.lt_succ_self _
    · exact (h.root_lt r hr).trans (Nat.lt_succ_self _)

/-- A new child behind the others. -/
theorem created (h : Forest s roots) {parent : ℕ} {name : Str} {flags : UInt32}
    (hc : Created s parent name flags s') : Forest s' roots := by
  obtain ⟨hdir, hdata, hfree, hfirst, hslot, -⟩ := hc
  rename_i p slot
  obtain ⟨hp, hown⟩ := h.dir_data parent hdir
  obtain rfl : parent = p := FsData.dir.inj (hown.symm.trans hdata)
  have hchildren (d : ℕ) (hd : d ≠ parent) :
      ((enterChild s parent slot name flags).ramfsDataPool d).children =
        (s.ramfsDataPool d).children := by
    rw [enterChild, setDir_data, Function.update_of_ne hd, h.children_addNode]
  exact {
    dir_data := fun n hn => h.dir_addNode hn
    -- the new child sits in the slot the search found, every other stays where it was
    slot := fun d i c hc => by
      rcases enterChild_child hp hc with ⟨rfl, rfl, rfl⟩ | ⟨hnew, hc⟩
      · rw [enterChild_old (Nat.ne_of_lt hp)]
        refine ⟨hdir, hslot, hp, Nat.lt_succ_self _, fun hroot => ?_⟩
        exact lt_irrefl _ (h.root_lt _ hroot)
      · obtain ⟨hdir', hi, hlt, hcount, hroot⟩ := h.slot d i c hc
        rw [enterChild_old hnew]
        exact ⟨hdir', hi, hlt, hcount.trans (Nat.lt_succ_self _), hroot⟩
    packed := fun d i j hij hnone => by
      by_cases hd : d = parent
      · subst hd
        exact enterChild_packed hp hfirst (h.packed d) hij hnone
      · rw [hchildren d hd] at hnone ⊢
        exact h.packed d i j hij hnone
    -- the new node had no place before, so no two slots share it
    inj := fun d i d' i' c hc hc' => by
      rcases enterChild_child hp hc with ⟨rfl, rfl, rfl⟩ | ⟨-, hc⟩
      · rcases enterChild_child hp hc' with ⟨rfl, rfl, -⟩ | ⟨-, hc'⟩
        · exact ⟨rfl, rfl⟩
        · exact absurd hc' (h.next_free d' i')
      · rcases enterChild_child hp hc' with ⟨-, -, rfl⟩ | ⟨-, hc'⟩
        · exact absurd hc (h.next_free d i)
        · exact h.inj d i d' i' c hc hc'
    held := fun n hn hroot => by
      by_cases hnew : n = s.ramfsNodeCount
      · refine ⟨parent, slot, ?_⟩
        rw [enterChild_parent hp, hnew]
        exact Function.update_self ..
      · obtain ⟨d, i, hc⟩ := h.held n (Nat.lt_of_le_of_ne (Nat.le_of_lt_succ hn) hnew) hroot
        refine ⟨d, i, ?_⟩
        by_cases hd : d = parent
        · subst hd
          have hi : i ≠ slot := by
            rintro rfl
            rw [hfree] at hc
            cases hc
          rw [enterChild_parent hp]
          exact (Function.update_of_ne hi _ _).trans hc
        · rw [hchildren d hd]
          exact hc
    root_lt := fun r hr => (h.root_lt r hr).trans (Nat.lt_succ_self _) }

/-- A mount adds no node or a root. -/
theorem mounted (h : Forest s roots) {path : Str} {r : ℤ} (hm : Mounted s path r s') :
    Forest s' (roots ∪ Finset.Ico s.ramfsNodeCount s'.ramfsNodeCount) := by
  have hnone (t : Vfs) (ht : t.ramfsNodeCount = s.ramfsNodeCount) :
      roots ∪ Finset.Ico s.ramfsNodeCount t.ramfsNodeCount = roots := by
    rw [ht, Finset.Ico_self, Finset.union_empty]
  have hone : roots ∪ Finset.Ico s.ramfsNodeCount (s.ramfsNodeCount + 1) =
      insert s.ramfsNodeCount roots := by
    rw [Nat.Ico_succ_singleton, Finset.union_comm, Finset.insert_eq]
  have halloc : Forest (allocRoot s path) (insert s.ramfsNodeCount roots) :=
    (h.addRoot [slash]).congr rfl rfl rfl
  cases hm with
  | refused =>
    rw [hnone s rfl]
    exact h
  | noRoot =>
    have hroots := hnone (s.setMount s.gMountCount ⟨path.take 255, none, 0⟩) rfl
    rw [hroots]
    exact h.congr rfl rfl rfl
  | noPlace =>
    change Forest _ (roots ∪ Finset.Ico s.ramfsNodeCount (s.ramfsNodeCount + 1))
    rw [hone]
    exact halloc
  | root =>
    change Forest _ (roots ∪ Finset.Ico s.ramfsNodeCount (s.ramfsNodeCount + 1))
    rw [hone]
    have hroot : Forest { allocRoot s path with gVfsRoot := some s.ramfsNodeCount }
        (insert s.ramfsNodeCount roots) := halloc.congr rfl rfl rfl
    exact (hroot.linkMount s.ramfsNodeCount s.gMountCount).congr rfl rfl rfl
  | @dir d =>
    change Forest _ (roots ∪ Finset.Ico s.ramfsNodeCount (s.ramfsNodeCount + 1))
    rw [hone]
    exact (halloc.linkMount d s.gMountCount).congr rfl rfl rfl

theorem mountOp (h : Forest s roots) (mp : ℕ) :
    Forest (ramfsMountOp s mp).2
      (roots ∪ Finset.Ico s.ramfsNodeCount (ramfsMountOp s mp).2.ramfsNodeCount) := by
  rcases ramfsMountOp_cases s mp with heq | heq
  · rw [heq, Finset.Ico_self, Finset.union_empty]
    exact h
  · have hroots : roots ∪ Finset.Ico s.ramfsNodeCount (s.ramfsNodeCount + 1) =
        insert s.ramfsNodeCount roots := by
      rw [Nat.Ico_succ_singleton, Finset.union_comm, Finset.insert_eq]
    rw [heq]
    change Forest _ (roots ∪ Finset.Ico s.ramfsNodeCount (s.ramfsNodeCount + 1))
    rw [hroots]
    exact (h.addRoot [slash]).congr rfl rfl rfl

theorem createIn (h : Forest s roots) (parent : Option ℕ) (name : Str) (flags : UInt32) :
    Forest (createIn s parent name flags).2 roots := by
  rcases createIn_cases s parent name flags with heq | ⟨dir, t, -, heq, hc⟩
  · rw [heq]
    exact h
  · rw [heq]
    exact h.created hc

end Forest

/-! ## Writes -/

/-- Nothing changed but the contents of file data blocks and the sizes of files. -/
structure Refilled (s s' : Vfs) : Prop where
  tree : SameTree s s'
  fsData : ∀ n, (s'.ramfsNodePool n).fsData = (s.ramfsNodePool n).fsData
  fileDataCount : s'.fileDataCount = s.fileDataCount
  fds : s'.gFds = s.gFds

theorem refilled_raiseSize (s : Vfs) (n : ℕ) (last : UInt64) : Refilled s (raiseSize s n last) where
  tree := sameTree_raiseSize s n last
  fsData m := by
    by_cases hm : m = n
    · subst hm
      rw [raiseSize_self]
    · rw [raiseSize_of_ne s last hm]
  fileDataCount := raiseSize_fileDataCount s n last
  fds := raiseSize_gFds s n last

theorem Refilled.trans {s'' : Vfs} (h : Refilled s s') (h' : Refilled s' s'') : Refilled s s'' where
  tree := h.tree.trans h'.tree
  fsData n := (h'.fsData n).trans (h.fsData n)
  fileDataCount := h'.fileDataCount.trans h.fileDataCount
  fds := h'.fds.trans h.fds

/-- The file data and the frames may change in any way. -/
theorem refilled_setFile (s : Vfs) (k : ℕ) (file : FileData) (frames : UInt64 → ℕ → UInt8)
    (allocs : ℕ) : Refilled s { s.setFile k file with frames := frames, allocs := allocs } where
  tree := .of_pool rfl rfl rfl rfl rfl rfl
  fsData _ := rfl
  fileDataCount := rfl
  fds := rfl

variable {n k : ℕ} {offset : UInt64} {size : UInt32} {data : ℕ → UInt8} {r : ℤ}

/-- A write sets its block and the frames, and after that raises the size of the file. -/
theorem writeFile_cases (h : writeFile answers s n k offset size data = some (r, s')) :
    ∃ (file : FileData) (frames : UInt64 → ℕ → UInt8) (allocs : ℕ),
      s' = { s.setFile k file with frames := frames, allocs := allocs } ∨
        ∃ last, s' = raiseSize { s.setFile k file with frames := frames, allocs := allocs } n last := by
  unfold writeFile at h
  dsimp only at h
  generalize allocPages answers (endPage offset size) maxFilePages (s.fileDataPool k).numPages
    (s.fileDataPool k) s.allocs = out at h
  obtain ⟨ok, file, allocs⟩ := out
  cases ok with
  | false =>
    obtain ⟨-, rfl⟩ := Prod.mk.inj (Option.some.inj h)
    exact ⟨file, s.frames, allocs, Or.inl rfl⟩
  | true =>
    dsimp only at h
    unfold storeBytes at h
    split at h
    · cases h
    · obtain ⟨-, rfl⟩ := Prod.mk.inj (Option.some.inj h)
      exact ⟨_, _, allocs, Or.inr ⟨_, rfl⟩⟩

theorem writeFile_refilled (h : writeFile answers s n k offset size data = some (r, s')) :
    Refilled s s' := by
  obtain ⟨file, frames, allocs, rfl | ⟨last, rfl⟩⟩ := writeFile_cases h
  · exact refilled_setFile s k file frames allocs
  · exact (refilled_setFile s k file frames allocs).trans (refilled_raiseSize _ n last)

/-- A write keeps the data blocks of all files, or gives its file the next one. -/
theorem ramfsWrite_refilled (h : ramfsWrite answers s (some n) offset size data = some (r, s')) :
    Refilled s s' ∨
      ¬ (s.ramfsNodePool n).isDir ∧ s.fileDataCount < maxRamfsFiles ∧
        Refilled (addBlock s n) s' := by
  unfold ramfsWrite at h
  dsimp only at h
  have hsame : Refilled s s := ⟨.refl s, fun _ => rfl, rfl, rfl⟩
  by_cases hdir : (s.ramfsNodePool n).isDir
  · rw [if_pos hdir] at h
    obtain ⟨rfl, rfl⟩ := Prod.mk.inj (Option.some.inj h)
    exact Or.inl hsame
  · rw [if_neg hdir] at h
    have hnew (hensure : ensureFileData s n (s.ramfsNodePool n).fsData =
        if s.fileDataCount ≥ maxRamfsFiles then none else some (s.fileDataCount, addBlock s n)) :
        Refilled s s' ∨ ¬ (s.ramfsNodePool n).isDir ∧ s.fileDataCount < maxRamfsFiles ∧
          Refilled (addBlock s n) s' := by
      rw [hensure] at h
      by_cases hfull : s.fileDataCount ≥ maxRamfsFiles
      · rw [if_pos hfull] at h
        obtain ⟨rfl, rfl⟩ := Prod.mk.inj (Option.some.inj h)
        exact Or.inl hsame
      · rw [if_neg hfull] at h
        exact Or.inr ⟨hdir, Nat.lt_of_not_le hfull, writeFile_refilled h⟩
    cases hdata : (s.ramfsNodePool n).fsData with
    | file k =>
      rw [hdata] at h
      exact Or.inl (writeFile_refilled h)
    | null =>
      apply hnew
      rw [hdata]
      rfl
    | dir d =>
      apply hnew
      rw [hdata]
      rfl

theorem ramfsWrite_sameTree {node : Option ℕ}
    (h : ramfsWrite answers s node offset size data = some (r, s')) : SameTree s s' := by
  cases node with
  | none =>
    obtain ⟨rfl, rfl⟩ := Prod.mk.inj (Option.some.inj h)
    exact .refl s
  | some n =>
    rcases ramfsWrite_refilled h with hsame | ⟨hdir, -, hnew⟩
    · exact hsame.tree
    · exact (sameTree_addBlock hdir).trans hnew.tree

/-! ## The data blocks of files -/

structure BlocksApart (s : Vfs) : Prop where
  dir : ∀ n d, (s.ramfsNodePool n).fsData = .dir d → (s.ramfsNodePool n).isDir
  block_lt : ∀ n k, (s.ramfsNodePool n).fsData = .file k → k < s.fileDataCount
  inj : ∀ n m k, (s.ramfsNodePool n).fsData = .file k → (s.ramfsNodePool m).fsData = .file k → m = n

namespace BlocksApart

theorem init (frames : UInt64 → ℕ → UInt8) : BlocksApart (vfsInit frames) where
  dir _ _ hd := by cases hd
  block_lt _ _ hk := by cases hk
  inj _ _ _ hk := by cases hk

theorem congr (h : BlocksApart s) (hpool : s'.ramfsNodePool = s.ramfsNodePool)
    (hcount : s'.fileDataCount = s.fileDataCount) : BlocksApart s' where
  dir := by
    rw [hpool]
    exact h.dir
  block_lt := by
    rw [hpool, hcount]
    exact h.block_lt
  inj := by
    rw [hpool]
    exact h.inj

theorem refilled (h : BlocksApart s) (hr : Refilled s s') : BlocksApart s' where
  dir n d hd := by
    rw [hr.fsData] at hd
    exact (hr.tree.isDir_iff n).mpr (h.dir n d hd)
  block_lt n k hk := by
    rw [hr.fsData] at hk
    rw [hr.fileDataCount]
    exact h.block_lt n k hk
  inj n m k hn hm := by
    rw [hr.fsData] at hn hm
    exact h.inj n m k hn hm

theorem linkMount (h : BlocksApart s) (node mp : ℕ) : BlocksApart (linkMount s node mp) := by
  have hdata (n : ℕ) :
      ((Fs.linkMount s node mp).ramfsNodePool n).fsData = (s.ramfsNodePool n).fsData := by
    by_cases hn : n = node
    · subst hn
      rw [linkMount_self]
    · rw [linkMount_of_ne _ _ hn]
  exact {
    dir := fun n d hd => by
      rw [hdata] at hd
      rw [isDir_linkMount]
      exact h.dir n d hd
    block_lt := fun n k hk => by
      rw [hdata] at hk
      exact h.block_lt n k hk
    inj := fun n m k hn hm => by
      rw [hdata] at hn hm
      exact h.inj n m k hn hm }

/-- A new node has no block. -/
theorem addNode (h : BlocksApart s) (name : Str) (flags : UInt32) :
    BlocksApart (addNode s (newNode s name flags)) := by
  have hold (n k : ℕ) (hk : ((Fs.addNode s (newNode s name flags)).ramfsNodePool n).fsData =
      .file k) : (s.ramfsNodePool n).fsData = .file k := by
    by_cases hn : n = s.ramfsNodeCount
    · subst hn
      rw [addNode_new, newNode] at hk
      by_cases hdir : flags &&& vfsDirectory ≠ 0
      · rw [if_pos hdir] at hk
        cases hk
      · rw [if_neg hdir] at hk
        cases hk
    · rw [addNode_old _ _ hn] at hk
      exact hk
  exact {
    dir := fun n d hd => by
      by_cases hn : n = s.ramfsNodeCount
      · subst hn
        rw [addNode_new] at hd ⊢
        by_contra hdir
        have hflags : ¬ flags &&& vfsDirectory ≠ 0 := hdir
        rw [newNode, if_neg hflags] at hd
        cases hd
      · rw [addNode_old _ _ hn] at hd ⊢
        exact h.dir n d hd
    block_lt := fun n k hk => h.block_lt n k (hold n k hk)
    inj := fun n m k hn hm => h.inj n m k (hold n k hn) (hold m k hm) }

/-- The next block goes to one file. -/
theorem addBlock (h : BlocksApart s) {n : ℕ} (hdir : ¬ (s.ramfsNodePool n).isDir) :
    BlocksApart (addBlock s n) := by
  have hcases (m k : ℕ) (hk : ((Fs.addBlock s n).ramfsNodePool m).fsData = .file k) :
      (m = n ∧ k = s.fileDataCount) ∨
        ((s.ramfsNodePool m).fsData = .file k ∧ k < s.fileDataCount) := by
    by_cases hm : m = n
    · subst hm
      rw [addBlock_node] at hk
      exact Or.inl ⟨rfl, (FsData.file.inj hk).symm⟩
    · rw [addBlock_node_of_ne hm] at hk
      exact Or.inr ⟨hk, h.block_lt m k hk⟩
  have htree := sameTree_addBlock hdir
  exact {
    dir := fun m d hd => (htree.isDir_iff m).mpr (h.dir m d (htree.own_dir m d hd))
    block_lt := fun m k hk => by
      rcases hcases m k hk with ⟨-, rfl⟩ | ⟨-, hlt⟩
      · exact Nat.lt_succ_self _
      · exact hlt.trans (Nat.lt_succ_self _)
    inj := fun m m' k hm hm' => by
      rcases hcases m k hm with ⟨rfl, rfl⟩ | ⟨hm, hlt⟩
      · rcases hcases m' _ hm' with ⟨rfl, -⟩ | ⟨-, hlt⟩
        · rfl
        · exact absurd hlt (lt_irrefl _)
      · rcases hcases m' k hm' with ⟨-, rfl⟩ | ⟨hm', -⟩
        · exact absurd hlt (lt_irrefl _)
        · exact h.inj m m' k hm hm' }

theorem mounted (h : BlocksApart s) {path : Str} {r : ℤ} (hm : Mounted s path r s') :
    BlocksApart s' := by
  have halloc : BlocksApart (allocRoot s path) := (h.addNode [slash] vfsDirectory).congr rfl rfl
  cases hm with
  | refused => exact h
  | noRoot => exact h.congr rfl rfl
  | noPlace => exact halloc
  | root =>
    have hroot : BlocksApart { allocRoot s path with gVfsRoot := some s.ramfsNodeCount } :=
      halloc.congr rfl rfl
    exact (hroot.linkMount s.ramfsNodeCount s.gMountCount).congr rfl rfl
  | @dir d => exact (halloc.linkMount d s.gMountCount).congr rfl rfl

theorem mountOp (h : BlocksApart s) (mp : ℕ) : BlocksApart (ramfsMountOp s mp).2 := by
  rcases ramfsMountOp_cases s mp with heq | heq
  · rw [heq]
    exact h
  · rw [heq]
    exact (h.addNode [slash] vfsDirectory).congr rfl rfl

theorem createIn (h : BlocksApart s) (parent : Option ℕ) (name : Str) (flags : UInt32) :
    BlocksApart (createIn s parent name flags).2 := by
  rcases createIn_cases s parent name flags with heq | ⟨dir, t, -, heq, hc⟩
  · rw [heq]
    exact h
  · rw [heq]
    obtain ⟨-, -, -, -, -, -⟩ := hc
    exact (h.addNode name flags).congr rfl rfl

theorem write (h : BlocksApart s) {node : Option ℕ}
    (hw : ramfsWrite answers s node offset size data = some (r, s')) : BlocksApart s' := by
  cases node with
  | none =>
    obtain ⟨rfl, rfl⟩ := Prod.mk.inj (Option.some.inj hw)
    exact h
  | some n =>
    rcases ramfsWrite_refilled hw with hsame | ⟨hdir, -, hnew⟩
    · exact h.refilled hsame
    · exact (h.addBlock hdir).refilled hnew

end BlocksApart

/-! ## Every run -/

theorem Forest.wellShaped (h : Forest s roots) (hb : BlocksApart s) : WellShaped s roots where
  one_slot n hn hroot := by
    obtain ⟨d, i, hc⟩ := h.held n hn hroot
    refine ⟨(d, i), h.slot_iff.mpr hc, fun p hp => ?_⟩
    obtain ⟨hd, hi⟩ := h.inj p.1 p.2 d i n (h.slot_iff.mp hp) hc
    exact Prod.ext hd hi
  no_slot r hr d i hc := (h.slot d i r (h.slot_iff.mp hc)).2.2.2.2 hr
  acyclic d hd := lt_irrefl d (h.transGen_lt hd)
  packed d b i j _ _ _ hij hnone := h.packed b i j hij hnone
  dir_data n _ hn := (h.dir_data n hn).2
  file_data n _ hn := by
    cases hdata : (s.ramfsNodePool n).fsData with
    | null => exact Or.inl rfl
    | dir d => exact absurd (hb.dir n d hdata) hn
    | file k => exact Or.inr ⟨k, hb.block_lt n k hdata, rfl, fun m _ hm => hb.inj n m k hdata hm⟩

theorem ramfsStep_forest {t t' : Rooted} {c : RamfsCall} (h : Forest t.vfs t.roots)
    (hb : BlocksApart t.vfs) (hstep : ramfsStep answers t c = some t') :
    Forest t'.vfs t'.roots ∧ BlocksApart t'.vfs := by
  cases c with
  | mount path fstype =>
    obtain ⟨⟨r, s'⟩, hm, rfl⟩ := Option.map_eq_some_iff.mp hstep
    exact ⟨h.mounted (vfsMount_cases hm), hb.mounted (vfsMount_cases hm)⟩
  | mountOp mp =>
    obtain rfl := Option.some.inj hstep
    exact ⟨h.mountOp mp, hb.mountOp mp⟩
  | create parent name flags =>
    obtain rfl := Option.some.inj hstep
    exact ⟨h.createIn parent name flags, hb.createIn parent name flags⟩
  | mkdir parent name =>
    obtain rfl := Option.some.inj hstep
    exact ⟨h.createIn parent name vfsDirectory, hb.createIn parent name vfsDirectory⟩
  | write node offset size data =>
    obtain ⟨⟨r, s'⟩, hw, rfl⟩ := Option.map_eq_some_iff.mp hstep
    exact ⟨h.sameTree (ramfsWrite_sameTree hw), hb.write hw⟩

theorem createIn_failed (s : Vfs) (parent : Option ℕ) (name : Str) (flags : UInt32)
    (hfail : (createIn s parent name flags).1 = -1) : (createIn s parent name flags).2 = s := by
  rcases createIn_cases s parent name flags with heq | ⟨dir, t, -, heq, -⟩
  · rw [heq]
  · rw [heq] at hfail
    cases hfail

/-- Whatever is called, the pools are well shaped, and a `ramfs_create` that fails changes
nothing. -/
theorem ramfs_wellShaped {frames : UInt64 → ℕ → UInt8} {calls : List RamfsCall} {t : Rooted}
    (hrun : RamfsRun answers frames calls t) :
    WellShaped t.vfs t.roots ∧ ∀ parent name flags,
      (createIn t.vfs parent name flags).1 = -1 → (createIn t.vfs parent name flags).2 = t.vfs := by
  have hinv := hrun.invariant (P := fun t => Forest t.vfs t.roots ∧ BlocksApart t.vfs)
    (fun _ _ _ h hstep => ramfsStep_forest h.1 h.2 hstep)
    ⟨Forest.init frames, BlocksApart.init frames⟩
  exact ⟨hinv.1.wellShaped hinv.2, createIn_failed t.vfs⟩

/-- A file in a directory, with one byte. -/
def oneByte : List RamfsCall :=
  [.mountOp 0, .mkdir (some 0) (str "etc"), .create (some 1) (str "f") vfsFile,
    .write (some 2) 0 1 fun _ => 7]

def etc₃ : Rooted :=
  let t : Rooted := ⟨vfsInit fun _ _ => 0, ∅⟩
  let t := t.grow (ramfsMountOp t.vfs 0).2
  let t := { t with vfs := (createIn t.vfs (some 0) (str "etc") vfsDirectory).2 }
  { t with vfs := (createIn t.vfs (some 1) (str "f") vfsFile).2 }

def etc₄ : Rooted :=
  (ramfsStep answers₁ etc₃ (.write (some 2) 0 1 fun _ => 7)).get (by decide +kernel)

theorem ramfs_wellShaped_oneByte :
    RamfsRun answers₁ (fun _ _ => 0) oneByte etc₄ ∧ etc₄.roots = {0} ∧
      WellShaped etc₄.vfs etc₄.roots := by
  have hrun : RamfsRun answers₁ (fun _ _ => 0) oneByte etc₄ :=
    .cons rfl (.cons rfl (.cons rfl (.cons (Option.some_get _).symm (.nil _))))
  exact ⟨hrun, by decide +kernel, (ramfs_wellShaped hrun).1⟩

end Rhoudveine.Fs
