import Rhoudveine.Fs.Forest

/-!
# The calls of the VFS

All calls that do not unmount, and what they can do to the directory trees.
-/

namespace Rhoudveine.Fs

variable {answers : ℕ → UInt64} {s s' : Vfs}

inductive VfsCall
  | mount (path fstype : Str)
  | mkdir (path : Str)
  | create (path : Str)
  | open (path : Str) (flags : UInt32)
  | close (fd : ℤ)
  | read (fd : ℤ) (count : UInt64)
  | write (fd : ℤ) (buffer : ℕ → UInt8) (count : UInt64)
  | seek (fd : ℤ) (offset : UInt64) (whence : ℤ)
  | readdir (fd : ℤ)

/-- The return value of a call and what it stores for the caller. -/
structure VfsReply where
  value : ℤ
  bytes : List UInt8
  entry : Option Dirent

/-- A call that only returns a value. -/
def VfsReply.ofValue (value : ℤ) : VfsReply := ⟨value, [], none⟩

/-- One call; `none` if it crashes. -/
def vfsCall (answers : ℕ → UInt64) (s : Vfs) : VfsCall → Option (VfsReply × Vfs)
  | .mount path fstype => (vfsMount s path fstype).map fun out => (.ofValue out.1, out.2)
  | .mkdir path => (vfsMkdir s path).map fun out => (.ofValue out.1, out.2)
  | .create path => (vfsCreate s path).map fun out => (.ofValue out.1, out.2)
  | .open path flags => (vfsOpen s path flags).map fun out => (.ofValue out.1, out.2)
  | .close fd => some (.ofValue (vfsClose s fd).1, (vfsClose s fd).2)
  | .read fd count => (vfsRead s fd count).map fun out => (⟨out.1, out.2.1, none⟩, out.2.2)
  | .write fd buffer count =>
    (vfsWrite answers s fd buffer count).map fun out => (.ofValue out.1, out.2)
  | .seek fd offset whence => some (.ofValue (vfsSeek s fd offset whence).1,
      (vfsSeek s fd offset whence).2)
  | .readdir fd => some (⟨(vfsReaddir s fd).1, [], (vfsReaddir s fd).2.1⟩, (vfsReaddir s fd).2.2)

def vfsStep (answers : ℕ → UInt64) (s : Vfs) (c : VfsCall) (s' : Vfs) : Prop :=
  ∃ reply, vfsCall answers s c = some (reply, s')

/-! ## Descriptors -/

theorem sameTree_setFd (s : Vfs) (fd : ℕ) (file : FileDescriptor) : SameTree s (s.setFd fd file) :=
  .of_pool rfl rfl rfl rfl rfl rfl

theorem openNode_cases (s : Vfs) (node : ℕ) (flags : UInt32) :
    (freeFd s = none ∧ openNode s node flags = (-1, s)) ∨
      ∃ fd, freeFd s = some fd ∧ openNode s node flags = ((fd : ℤ), s.setFd fd
        { node := some node
          offset := if flags &&& oAppend ≠ 0 then (s.ramfsNodePool node).size.toUInt64 else 0
          flags := flags
          refcount := 1 }) := by
  cases hfree : freeFd s with
  | none => exact Or.inl ⟨rfl, by rw [openNode, hfree]⟩
  | some fd => exact Or.inr ⟨fd, rfl, by rw [openNode, hfree]⟩

theorem openNode_sameTree (s : Vfs) (node : ℕ) (flags : UInt32) :
    SameTree s (openNode s node flags).2 := by
  rcases openNode_cases s node flags with ⟨-, heq⟩ | ⟨fd, -, heq⟩
  · rw [heq]
    exact .refl s
  · rw [heq]
    exact sameTree_setFd s fd _

theorem vfsClose_sameTree (s : Vfs) (fd : ℤ) : SameTree s (vfsClose s fd).2 := by
  unfold vfsClose
  split
  · exact .refl s
  · exact sameTree_setFd s _ _

theorem vfsSeek_sameTree (s : Vfs) (fd : ℤ) (offset : UInt64) (whence : ℤ) :
    SameTree s (vfsSeek s fd offset whence).2 := by
  unfold vfsSeek
  split
  · exact .refl s
  · split
    · exact sameTree_setFd s _ _
    · split
      · exact sameTree_setFd s _ _
      · split
        · split
          · exact .refl s
          · exact sameTree_setFd s _ _
        · exact .refl s

theorem vfsReaddir_sameTree (s : Vfs) (fd : ℤ) : SameTree s (vfsReaddir s fd).2.2 := by
  unfold vfsReaddir
  split
  · exact .refl s
  · split
    · exact .refl s
    · split
      · exact .refl s
      · exact sameTree_setFd s _ _

theorem vfsRead_sameTree {fd : ℤ} {count : UInt64} {r : ℤ} {bytes : List UInt8}
    (h : vfsRead s fd count = some (r, bytes, s')) : SameTree s s' := by
  unfold vfsRead at h
  split at h
  · cases h
    exact .refl s
  · split at h
    · cases h
      exact .refl s
    · split at h
      · cases h
      · cases h
        exact sameTree_setFd s _ _

theorem vfsWrite_sameTree {fd : ℤ} {buffer : ℕ → UInt8} {count : UInt64} {r : ℤ}
    (h : vfsWrite answers s fd buffer count = some (r, s')) : SameTree s s' := by
  unfold vfsWrite at h
  split at h
  · cases h
    exact .refl s
  · split at h
    · cases h
      exact .refl s
    · split at h
      · cases h
      · rename_i hwrite
        cases h
        exact (ramfsWrite_sameTree hwrite).trans (sameTree_setFd _ _ _)

/-! ## Outcomes -/

/-- What a call does to the trees. -/
inductive Changed (s : Vfs) : Vfs → Prop
  | same {s' : Vfs} : SameTree s s' → Changed s s'
  | created {parent : ℕ} {name : Str} {flags : UInt32} {t s' : Vfs} :
      Created s parent name flags t → SameTree t s' → Changed s s'
  | mounted {path : Str} {r : ℤ} {s' : Vfs} : Mounted s path r s' → Changed s s'

theorem createAt_changed {op : Vfs → ℕ → Str → ℤ × Vfs} {flags : UInt32}
    (hop : ∀ s parent name, op s parent name = ramfsCreate s parent name flags) {path : Str} {r : ℤ}
    (h : createAt op s path = some (r, s')) : Changed s s' := by
  rcases createAt_cases hop h with ⟨-, rfl⟩ | ⟨-, parent, -, hc⟩
  · exact .same (.refl s')
  · exact .created hc (.refl s')

/-- `vfs_open` opens what is there, or what it creates first. -/
theorem vfsOpen_cases {path : Str} {flags : UInt32} {r : ℤ}
    (h : vfsOpen s path flags = some (r, s')) :
    (r = -1 ∧ s' = s) ∨
      (∃ node, vfsResolvePath s path = .node node ∧ (r, s') = openNode s node flags) ∨
      vfsResolvePath s path = .null ∧ ∃ t, vfsCreate s path = some (0, t) ∧
        ((r = -1 ∧ s' = t) ∨
          ∃ node, vfsResolvePath t path = .node node ∧ (r, s') = openNode t node flags) := by
  unfold vfsOpen at h
  cases hres : vfsResolvePath s path with
  | crash => simp [hres] at h
  | node node =>
    simp only [hres, Option.some.injEq] at h
    exact Or.inr (Or.inl ⟨node, rfl, h.symm⟩)
  | null =>
    simp only [hres] at h
    by_cases hflags : flags &&& oCreat = 0
    · rw [if_pos hflags] at h
      cases h
      exact Or.inl ⟨rfl, rfl⟩
    · rw [if_neg hflags] at h
      cases hmade : vfsCreate s path with
      | none => simp [hmade] at h
      | some out =>
        obtain ⟨q, t⟩ := out
        simp only [hmade] at h
        by_cases hq : q ≠ 0
        · rw [if_pos hq] at h
          cases h
          have hsame : s' = s := by
            rcases createAt_cases (fun _ _ _ => rfl) hmade with ⟨-, heq⟩ | ⟨hzero, -⟩
            · exact heq
            · exact absurd hzero hq
          exact Or.inl ⟨rfl, hsame⟩
        · rw [if_neg hq] at h
          obtain rfl : q = 0 := not_not.mp hq
          refine Or.inr (Or.inr ⟨rfl, t, rfl, ?_⟩)
          cases hagain : vfsResolvePath t path with
          | crash => simp [hagain] at h
          | null =>
            simp only [hagain, Option.some.injEq, Prod.mk.injEq] at h
            exact Or.inl ⟨h.1.symm, h.2.symm⟩
          | node node =>
            simp only [hagain, Option.some.injEq] at h
            exact Or.inr ⟨node, rfl, h.symm⟩

/-- `vfs_open` creates no more than one file. -/
theorem vfsOpen_created {path : Str} {flags : UInt32} {r : ℤ}
    (h : vfsOpen s path flags = some (r, s')) :
    SameTree s s' ∨ ∃ parent name t, Created s parent name vfsFile t ∧ SameTree t s' := by
  have hopen (t : Vfs) (node : ℕ) (heq : (r, s') = openNode t node flags) : SameTree t s' := by
    have hs' : s' = (openNode t node flags).2 := congrArg Prod.snd heq
    rw [hs']
    exact openNode_sameTree t node flags
  rcases vfsOpen_cases h with ⟨-, rfl⟩ | ⟨node, -, heq⟩ | ⟨-, t, hmade, hafter⟩
  · exact Or.inl (.refl s')
  · exact Or.inl (hopen s node heq)
  · have htree : SameTree t s' := by
      rcases hafter with ⟨-, rfl⟩ | ⟨node, -, heq⟩
      · exact .refl s'
      · exact hopen t node heq
    rcases createAt_cases (fun _ _ _ => rfl) hmade with ⟨-, rfl⟩ | ⟨-, parent, -, hc⟩
    · exact Or.inl htree
    · exact Or.inr ⟨parent, _, t, hc, htree⟩

theorem vfsOpen_changed {path : Str} {flags : UInt32} {r : ℤ}
    (h : vfsOpen s path flags = some (r, s')) : Changed s s' := by
  rcases vfsOpen_created h with ht | ⟨parent, name, t, hc, ht⟩
  · exact .same ht
  · exact .created hc ht

theorem vfsStep_changed {c : VfsCall} (h : vfsStep answers s c s') : Changed s s' := by
  obtain ⟨reply, h⟩ := h
  cases c with
  | mount path fstype =>
    obtain ⟨⟨r, t⟩, hm, heq⟩ := Option.map_eq_some_iff.mp h
    cases heq
    exact .mounted (vfsMount_cases hm)
  | mkdir path =>
    obtain ⟨⟨r, t⟩, hm, heq⟩ := Option.map_eq_some_iff.mp h
    cases heq
    exact createAt_changed (fun _ _ _ => rfl) hm
  | create path =>
    obtain ⟨⟨r, t⟩, hm, heq⟩ := Option.map_eq_some_iff.mp h
    cases heq
    exact createAt_changed (fun _ _ _ => rfl) hm
  | «open» path flags =>
    obtain ⟨⟨r, t⟩, hopen, heq⟩ := Option.map_eq_some_iff.mp h
    cases heq
    exact vfsOpen_changed hopen
  | close fd =>
    cases h
    exact .same (vfsClose_sameTree s fd)
  | read fd count =>
    obtain ⟨⟨r, bytes, t⟩, hread, heq⟩ := Option.map_eq_some_iff.mp h
    cases heq
    exact .same (vfsRead_sameTree hread)
  | write fd buffer count =>
    obtain ⟨⟨r, t⟩, hwrite, heq⟩ := Option.map_eq_some_iff.mp h
    cases heq
    exact .same (vfsWrite_sameTree hwrite)
  | seek fd offset whence =>
    cases h
    exact .same (vfsSeek_sameTree s fd offset whence)
  | readdir fd =>
    cases h
    exact .same (vfsReaddir_sameTree s fd)

/-! ## Operations and stored names -/

theorem Created.ops {parent : ℕ} {name : Str} {flags : UInt32} (hc : Created s parent name flags s')
    (h : ∀ n < s.ramfsNodeCount, (s.ramfsNodePool n).ops = some .ramfs) :
    ∀ n < s'.ramfsNodeCount, (s'.ramfsNodePool n).ops = some .ramfs := by
  obtain ⟨-, -, -, -, -, -⟩ := hc
  intro n hn
  by_cases hnew : n = s.ramfsNodeCount
  · rw [hnew, enterChild_new]
    rfl
  · rw [enterChild_old hnew]
    exact h n (Nat.lt_of_le_of_ne (Nat.le_of_lt_succ hn) hnew)

theorem Created.name_le {parent : ℕ} {name : Str} {flags : UInt32} {roots : Finset ℕ}
    (hc : Created s parent name flags s') (hforest : Forest s roots)
    (h : ∀ d i, (s.ramfsDataPool d).children i ≠ none →
      ((s.ramfsDataPool d).childNames i).length ≤ 31) (d i : ℕ)
    (hne : (s'.ramfsDataPool d).children i ≠ none) :
    ((s'.ramfsDataPool d).childNames i).length ≤ 31 := by
  obtain ⟨hdir, hdata, -, -, -, -⟩ := hc
  rename_i p slot
  obtain ⟨hp, hown⟩ := hforest.dir_data parent hdir
  obtain rfl : parent = p := FsData.dir.inj (hown.symm.trans hdata)
  obtain ⟨c, hc⟩ := Option.ne_none_iff_exists'.mp hne
  by_cases hd : d = parent
  · subst hd
    rw [enterChild_parent hp] at hc ⊢
    dsimp only at hc ⊢
    by_cases hi : i = slot
    · subst hi
      rw [Function.update_self]
      exact List.length_take_le _ _
    · rw [Function.update_of_ne hi] at hc ⊢
      exact h d i (by simp [hc])
  · by_cases hnew : d = s.ramfsNodeCount
    · rw [hnew, enterChild_newDir hp]
      exact Nat.zero_le _
    · rw [enterChild_oldDir hnew hd] at hc ⊢
      exact h d i (by simp [hc])

theorem ops_addRoot (name : Str)
    (h : ∀ n < s.ramfsNodeCount, (s.ramfsNodePool n).ops = some .ramfs) :
    ∀ n < s.ramfsNodeCount + 1,
      ((addNode s (newNode s name vfsDirectory)).ramfsNodePool n).ops = some .ramfs := by
  intro n hn
  by_cases hnew : n = s.ramfsNodeCount
  · rw [hnew, addNode_new]
    rfl
  · rw [addNode_old _ _ hnew]
    exact h n (Nat.lt_of_le_of_ne (Nat.le_of_lt_succ hn) hnew)

theorem name_le_addRoot (name : Str)
    (h : ∀ d i, (s.ramfsDataPool d).children i ≠ none →
      ((s.ramfsDataPool d).childNames i).length ≤ 31) (d i : ℕ)
    (hne : ((addNode s (newNode s name vfsDirectory)).ramfsDataPool d).children i ≠ none) :
    (((addNode s (newNode s name vfsDirectory)).ramfsDataPool d).childNames i).length ≤ 31 := by
  by_cases hnew : d = s.ramfsNodeCount
  · rw [hnew, addNode_newDir]
    exact Nat.zero_le _
  · rw [addNode_oldDir _ _ hnew] at hne ⊢
    exact h d i hne

/-! ## States built by calls -/

/-- What every state has that the calls reach. -/
structure Planted (s : Vfs) : Prop extends Shaped s where
  forest : ∃ roots, Forest s roots
  ops : ∀ n < s.ramfsNodeCount, (s.ramfsNodePool n).ops = some .ramfs
  link_le : ∀ n k r, (s.ramfsNodePool n).mount = some k → (s.gMounts k).root = some r → n ≤ r
  name_le : ∀ d i, (s.ramfsDataPool d).children i ≠ none →
    ((s.ramfsDataPool d).childNames i).length ≤ 31

namespace Planted

theorem init (frames : UInt64 → ℕ → UInt8) : Planted (vfsInit frames) where
  toShaped := shaped_init frames
  forest := ⟨∅, Forest.init frames⟩
  ops _ hn := absurd hn (Nat.not_lt_zero _)
  link_le _ _ _ hk := by cases hk
  name_le _ _ _ := Nat.zero_le _

theorem dir_data (h : Planted s) {n : ℕ} (hn : (s.ramfsNodePool n).isDir) :
    n < s.ramfsNodeCount ∧ (s.ramfsNodePool n).fsData = .dir n := by
  obtain ⟨roots, hf⟩ := h.forest
  exact hf.dir_data n hn

theorem packed (h : Planted s) (d : ℕ) {i j : ℕ} (hij : i ≤ j)
    (hnone : (s.ramfsDataPool d).children i = none) : (s.ramfsDataPool d).children j = none := by
  obtain ⟨roots, hf⟩ := h.forest
  exact hf.packed d i j hij hnone

theorem child_gt (h : Planted s) {d i c : ℕ} (hc : (s.ramfsDataPool d).children i = some c) :
    d < c ∧ c < s.ramfsNodeCount := by
  obtain ⟨roots, hf⟩ := h.forest
  obtain ⟨-, -, hlt, hcount, -⟩ := hf.slot d i c hc
  exact ⟨hlt, hcount⟩

theorem sameTree (h : Planted s) (ht : SameTree s s') : Planted s' where
  own_dir n d hn hd := h.own_dir n d (ht.count ▸ hn) (ht.own_dir n d hd)
  child_lt n i c hn hc := by
    rw [ht.data] at hc
    rw [ht.count] at hn ⊢
    exact h.child_lt n i c hn hc
  root_lt r hr := by
    rw [ht.root] at hr
    rw [ht.count]
    exact h.root_lt r hr
  entry_root i hi := by
    rw [ht.mounts.2] at hi
    rw [ht.mounts.1, ht.count]
    exact h.entry_root i hi
  link_lt n k hk := by
    rw [ht.mount] at hk
    rw [ht.mounts.2]
    exact h.link_lt n k hk
  forest := by
    obtain ⟨roots, hf⟩ := h.forest
    exact ⟨roots, hf.sameTree ht⟩
  ops n hn := by
    rw [ht.count] at hn
    rw [ht.ops]
    exact h.ops n hn
  link_le n k r hk hr := by
    rw [ht.mount] at hk
    rw [ht.mounts.1] at hr
    exact h.link_le n k r hk hr
  name_le := by
    rw [ht.data]
    exact h.name_le

theorem created (h : Planted s) {parent : ℕ} {name : Str} {flags : UInt32}
    (hc : Created s parent name flags s') : Planted s' := by
  have hshaped := h.toShaped.created hc
  have hforest : ∃ roots, Forest s' roots := by
    obtain ⟨roots, hf⟩ := h.forest
    exact ⟨roots, hf.created hc⟩
  have hops := hc.ops h.ops
  have hnames : ∀ d i, (s'.ramfsDataPool d).children i ≠ none →
      ((s'.ramfsDataPool d).childNames i).length ≤ 31 := by
    obtain ⟨roots, hf⟩ := h.forest
    exact hc.name_le hf h.name_le
  obtain ⟨-, -, -, -, -, -⟩ := hc
  exact {
    hshaped with
    forest := hforest
    ops := hops
    link_le := fun n k r hk hr => by
      by_cases hnew : n = s.ramfsNodeCount
      · rw [hnew, enterChild_new] at hk
        cases hk
      · rw [enterChild_old hnew] at hk
        exact h.link_le n k r hk hr
    name_le := hnames }

/-- Linking a node to the entry of a later root. -/
theorem linkMount (h : Planted s) {d r : ℕ} (hr : r < s.ramfsNodeCount) (hdr : d ≤ r)
    (hroot : (s.gMounts s.gMountCount).root = some r) :
    Planted { linkMount s d s.gMountCount with gMountCount := s.gMountCount + 1 } := by
  have hshaped := h.toShaped.linkMount d ⟨r, hr, hroot⟩
  exact {
    hshaped with
    forest := by
      obtain ⟨roots, hf⟩ := h.forest
      exact ⟨roots, (hf.linkMount d s.gMountCount).congr rfl rfl rfl⟩
    ops := fun n hn => by
      by_cases hnd : n = d
      · subst hnd
        simp only [linkMount_self]
        exact h.ops n hn
      · simp only [linkMount_of_ne _ _ hnd]
        exact h.ops n hn
    link_le := fun n k q hk hq => by
      by_cases hnd : n = d
      · subst hnd
        simp only [linkMount_self, Option.some.injEq] at hk
        subst hk
        obtain rfl : r = q := Option.some.inj (hroot.symm.trans hq)
        exact hdr
      · simp only [linkMount_of_ne _ _ hnd] at hk
        exact h.link_le n k q hk hq
    name_le := h.name_le }

/-- Writing the entry behind the used ones harms nothing. -/
theorem setMount (h : Planted s) (mp : Mount) : Planted (s.setMount s.gMountCount mp) := by
  have hshaped := h.toShaped.setMount mp
  exact {
    hshaped with
    forest := by
      obtain ⟨roots, hf⟩ := h.forest
      exact ⟨roots, hf.congr rfl rfl rfl⟩
    ops := h.ops
    link_le := fun n k r hk hr => by
      rw [setMount_of_ne s mp (Nat.ne_of_lt (h.link_lt n k hk))] at hr
      exact h.link_le n k r hk hr
    name_le := h.name_le }

theorem addRoot (h : Planted s) (name : Str) :
    Planted (addNode s (newNode s name vfsDirectory)) := by
  obtain ⟨roots, hf⟩ := h.forest
  have hshaped : Shaped (addNode s (newNode s name vfsDirectory)) :=
    h.toShaped.addNode (fun _ => newNode_dir) rfl
  exact {
    hshaped with
    forest := ⟨_, hf.addRoot name⟩
    ops := ops_addRoot name h.ops
    link_le := fun n k r hk hr => by
      by_cases hnew : n = s.ramfsNodeCount
      · rw [hnew, addNode_new] at hk
        cases hk
      · rw [addNode_old _ _ hnew] at hk
        exact h.link_le n k r hk hr
    name_le := name_le_addRoot name h.name_le }

theorem allocRoot (h : Planted s) (path : Str) : Planted (allocRoot s path) :=
  (h.addRoot [slash]).setMount _

theorem mounted (h : Planted s) {path : Str} {r : ℤ} (hm : Mounted s path r s') : Planted s' := by
  have halloc := h.allocRoot path
  have hroot := allocRoot_root s path
  cases hm with
  | refused => exact h
  | noRoot => exact h.setMount _
  | noPlace => exact halloc
  | root =>
    have hglobal : Planted { Fs.allocRoot s path with gVfsRoot := some s.ramfsNodeCount } := by
      refine { halloc with root_lt := fun r hr => ?_, forest := ?_ }
      · rw [← Option.some.inj hr]
        exact Nat.lt_succ_self _
      · obtain ⟨roots, hf⟩ := halloc.forest
        exact ⟨roots, hf.congr rfl rfl rfl⟩
    exact hglobal.linkMount (Nat.lt_succ_self _) le_rfl hroot
  | @dir d _ _ _ hres =>
    rw [h.toShaped.resolvePath_allocRoot] at hres
    exact halloc.linkMount (Nat.lt_succ_self _) (h.toShaped.resolvePath_lt hres).le hroot

theorem changed (h : Planted s) (hc : Changed s s') : Planted s' := by
  cases hc with
  | same ht => exact h.sameTree ht
  | created hc ht => exact (h.created hc).sameTree ht
  | mounted hm => exact h.mounted hm

theorem run {frames : UInt64 → ℕ → UInt8} {calls : List VfsCall}
    (hrun : Run (vfsStep answers) (vfsInit frames) calls s) : Planted s :=
  hrun.invariant (fun _ _ _ h hstep => h.changed (vfsStep_changed hstep)) (init frames)

end Planted

end Rhoudveine.Fs
