import Rhoudveine.Fs.Vfs

/-!
# Adding nodes and mounts

What `ramfs_create`, `vfs_create`, `vfs_mkdir` and `vfs_mount` can do to the state, one
case per outcome, and the shape of the node pool that they keep.
-/

namespace Rhoudveine.Fs
open Search

/-! ## Field lemmas -/

section fields

variable (s : Vfs)

@[simp] theorem setNode_pool (n : ℕ) (node : Node) :
    (s.setNode n node).ramfsNodePool = Function.update s.ramfsNodePool n node := rfl

@[simp] theorem setDir_data (d : ℕ) (dir : DirData) :
    (s.setDir d dir).ramfsDataPool = Function.update s.ramfsDataPool d dir := rfl

theorem setMount_of_ne (mp : Mount) {i j : ℕ} (h : j ≠ i) :
    (s.setMount i mp).gMounts j = s.gMounts j := Function.update_of_ne h ..

theorem addNode_new (node : Node) : (addNode s node).ramfsNodePool s.ramfsNodeCount = node :=
  Function.update_self ..

theorem addNode_old (node : Node) {n : ℕ} (h : n ≠ s.ramfsNodeCount) :
    (addNode s node).ramfsNodePool n = s.ramfsNodePool n := Function.update_of_ne h ..

theorem addNode_newDir (node : Node) :
    (addNode s node).ramfsDataPool s.ramfsNodeCount = ⟨fun _ => [], fun _ => none⟩ :=
  Function.update_self ..

theorem addNode_oldDir (node : Node) {d : ℕ} (h : d ≠ s.ramfsNodeCount) :
    (addNode s node).ramfsDataPool d = s.ramfsDataPool d := Function.update_of_ne h ..

theorem linkMount_self (node mp : ℕ) :
    (linkMount s node mp).ramfsNodePool node =
      { s.ramfsNodePool node with
        flags := (s.ramfsNodePool node).flags ||| vfsMountpoint
        mount := some mp } := Function.update_self ..

theorem linkMount_of_ne (mp : ℕ) {node n : ℕ} (h : n ≠ node) :
    (linkMount s node mp).ramfsNodePool n = s.ramfsNodePool n := Function.update_of_ne h ..

/-- The mark of a mount point is not the one of a directory. -/
theorem isDir_linkMount (node mp n : ℕ) :
    ((linkMount s node mp).ramfsNodePool n).isDir ↔ (s.ramfsNodePool n).isDir := by
  by_cases hn : n = node
  · subst hn
    have hflags : ((s.ramfsNodePool n).flags ||| vfsMountpoint) &&& vfsDirectory =
        (s.ramfsNodePool n).flags &&& vfsDirectory := by
      have hdisjoint : vfsMountpoint.toBitVec &&& vfsDirectory.toBitVec = 0 := rfl
      apply UInt32.toBitVec_inj.mp
      rw [UInt32.toBitVec_and, UInt32.toBitVec_or, BitVec.and_or_distrib_right, hdisjoint,
        UInt32.toBitVec_and]
      exact BitVec.or_zero
    rw [linkMount_self, Node.isDir, Node.isDir, hflags]
  · rw [linkMount_of_ne _ _ hn]

end fields

/-- Set twice, a node has its second value. -/
theorem setNode_addNode (s : Vfs) (node node' : Node) :
    (addNode s node).setNode s.ramfsNodeCount node' = addNode s node' := by
  simp [addNode, Vfs.setNode, Vfs.setDir, Function.update_idem]

/-! ## Outcomes -/

/-- The node that `ramfs_create` and `ramfs_mount_op` add. -/
def newNode (s : Vfs) (name : Str) (flags : UInt32) : Node :=
  { Node.zero with
    name := name.take 255
    flags := flags
    ops := some .ramfs
    fsData := if flags &&& vfsDirectory ≠ 0 then .dir s.ramfsNodeCount else .null }

/-- The state after a node is added and entered in slot `slot` of the directory block
`d`. -/
def enterChild (s : Vfs) (d slot : ℕ) (name : Str) (flags : UInt32) : Vfs :=
  let s' := addNode s (newNode s name flags)
  s'.setDir d
    { children := Function.update (s'.ramfsDataPool d).children slot (some s.ramfsNodeCount)
      childNames := Function.update (s'.ramfsDataPool d).childNames slot (name.take 31) }

/-- A successful `ramfs_create` in `parent`. -/
inductive Created (s : Vfs) (parent : ℕ) (name : Str) (flags : UInt32) : Vfs → Prop
  | mk {d slot : ℕ} : (s.ramfsNodePool parent).isDir →
      (s.ramfsNodePool parent).fsData = .dir d →
      (s.ramfsDataPool d).children slot = none →
      (∀ j < slot, (s.ramfsDataPool d).children j ≠ none) → slot < ramfsMaxChildren →
      s.ramfsNodeCount < maxRamfsNodes → Created s parent name flags (enterChild s d slot name flags)

/-- `ramfs_create` fails and changes nothing, or adds a node and enters it in the first
free slot of its parent. -/
theorem ramfsCreate_cases (s : Vfs) (parent : ℕ) (name : Str) (flags : UInt32) :
    ramfsCreate s parent name flags = (-1, s) ∨
      ∃ s', ramfsCreate s parent name flags = (0, s') ∧ Created s parent name flags s' := by
  by_cases hdir : (s.ramfsNodePool parent).isDir
  · cases hdata : (s.ramfsNodePool parent).fsData with
    | null => exact Or.inl (by simp [ramfsCreate, hdir, hdata])
    | file k => exact Or.inl (by simp [ramfsCreate, hdir, hdata])
    | dir d =>
      cases hslot : firstSome (fun i => if (s.ramfsDataPool d).children i = none then some i
        else none) ramfsMaxChildren 0 with
      | none => exact Or.inl (by simp [ramfsCreate, hdir, hdata, hslot])
      | some slot =>
        by_cases hroom : s.ramfsNodeCount < maxRamfsNodes
        · obtain ⟨i, -, hi, hsome, hbefore⟩ := firstSome_eq_some.mp hslot
          have hfree : (s.ramfsDataPool d).children i = none ∧ i = slot := by
            by_cases h : (s.ramfsDataPool d).children i = none
            · rw [if_pos h] at hsome
              exact ⟨h, Option.some.inj hsome⟩
            · rw [if_neg h] at hsome
              cases hsome
          obtain ⟨hfree, rfl⟩ := hfree
          have hfirst (j : ℕ) (hj : j < i) : (s.ramfsDataPool d).children j ≠ none := by
            intro hnone
            have hskip := hbefore j (Nat.zero_le j) hj
            rw [if_pos hnone] at hskip
            cases hskip
          refine Or.inr ⟨enterChild s d i name flags, ?_,
            .mk hdir hdata hfree hfirst (by omega) hroom⟩
          simp only [ramfsCreate, not_not.mpr hdir, if_false, hdata, hslot, ramfsAllocNode,
            if_neg (Nat.not_le.mpr hroom), setNode_addNode, addNode_new, newNode, enterChild]
          rfl
        · refine Or.inl ?_
          simp [ramfsCreate, hdir, hdata, hslot, ramfsAllocNode, Nat.not_lt.mp hroom]
  · exact Or.inl (by simp [ramfsCreate, hdir])

/-- `vfs_create` and `vfs_mkdir` fail and change nothing, or create a child of the node
that the directory part of the path resolves to. -/
theorem createAt_cases {op : Vfs → ℕ → Str → ℤ × Vfs} {flags : UInt32}
    (hop : ∀ s parent name, op s parent name = ramfsCreate s parent name flags) {s s' : Vfs}
    {path : Str} {r : ℤ} (h : createAt op s path = some (r, s')) :
    r = -1 ∧ s' = s ∨
      r = 0 ∧ ∃ parent, vfsResolvePath s (vfsDirname path) = .node parent ∧
        Created s parent (vfsBasename path) flags s' := by
  unfold createAt at h
  cases hres : vfsResolvePath s (vfsDirname path) with
  | crash => simp [hres] at h
  | null =>
    simp only [hres, Option.some.injEq, Prod.mk.injEq] at h
    exact Or.inl ⟨h.1.symm, h.2.symm⟩
  | node parent =>
    simp only [hres] at h
    cases hops : (s.ramfsNodePool parent).ops with
    | none =>
      simp only [hops, Option.some.injEq, Prod.mk.injEq] at h
      exact Or.inl ⟨h.1.symm, h.2.symm⟩
    | some kind =>
      cases kind
      simp only [hops, hop, Option.some.injEq] at h
      rcases ramfsCreate_cases s parent (vfsBasename path) flags with heq | ⟨t, heq, hcreated⟩
      · rw [heq, Prod.mk.injEq] at h
        exact Or.inl ⟨h.1.symm, h.2.symm⟩
      · rw [heq, Prod.mk.injEq] at h
        obtain ⟨rfl, rfl⟩ := h
        exact Or.inr ⟨rfl, parent, rfl, hcreated⟩

/-- The state in which `vfs_mount` looks for its mount point: the next entry of the mount
table names the path and a fresh root directory. -/
def allocRoot (s : Vfs) (path : Str) : Vfs :=
  (addNode s (newNode s [slash] vfsDirectory)).setMount s.gMountCount
    ⟨path.take 255, some s.ramfsNodeCount, 0⟩

/-- The outcomes of `vfs_mount` that do not crash. -/
inductive Mounted (s : Vfs) (path : Str) : ℤ → Vfs → Prop
  /-- The table is full or the type unknown. -/
  | refused : Mounted s path (-1) s
  /-- No node is left for the root directory. -/
  | noRoot : Mounted s path (-1) (s.setMount s.gMountCount ⟨path.take 255, none, 0⟩)
  /-- The mount point is missing or no directory. -/
  | noPlace : s.gMountCount < maxMounts → s.ramfsNodeCount < maxRamfsNodes →
      Mounted s path (-1) (allocRoot s path)
  | root : s.gMountCount < maxMounts → s.ramfsNodeCount < maxRamfsNodes → path = [slash] →
      Mounted s path 0
        { linkMount { allocRoot s path with gVfsRoot := some s.ramfsNodeCount } s.ramfsNodeCount
            s.gMountCount with gMountCount := s.gMountCount + 1 }
  | dir {d : ℕ} : s.gMountCount < maxMounts → s.ramfsNodeCount < maxRamfsNodes → path ≠ [slash] →
      vfsResolvePath (allocRoot s path) path = .node d →
      ((allocRoot s path).ramfsNodePool d).isDir →
      Mounted s path 0
        { linkMount (allocRoot s path) d s.gMountCount with gMountCount := s.gMountCount + 1 }

theorem ramfsMountOp_cases (s : Vfs) (mp : ℕ) :
    ramfsMountOp s mp = (-1, s) ∨
      ramfsMountOp s mp = (0, (addNode s (newNode s [slash] vfsDirectory)).setMount mp
        { s.gMounts mp with root := some s.ramfsNodeCount }) := by
  by_cases hroom : s.ramfsNodeCount ≥ maxRamfsNodes
  · rw [ramfsMountOp, ramfsAllocNode, if_pos hroom]
    exact Or.inl rfl
  · rw [ramfsMountOp, ramfsAllocNode, if_neg hroom]
    simp only [setNode_addNode, addNode_new]
    exact Or.inr rfl

/-- `ramfs_mount_op` on an entry that was just filled in. -/
theorem ramfsMountOp_eq (s : Vfs) (path : Str) :
    ramfsMountOp (s.setMount s.gMountCount ⟨path.take 255, none, 0⟩) s.gMountCount =
      if s.ramfsNodeCount ≥ maxRamfsNodes then
        (-1, s.setMount s.gMountCount ⟨path.take 255, none, 0⟩)
      else (0, allocRoot s path) := by
  by_cases hroom : s.ramfsNodeCount ≥ maxRamfsNodes
  · have hroom' : (s.setMount s.gMountCount ⟨path.take 255, none, 0⟩).ramfsNodeCount ≥
        maxRamfsNodes := hroom
    rw [if_pos hroom, ramfsMountOp, ramfsAllocNode, if_pos hroom']
  · have hroom' : ¬ (s.setMount s.gMountCount ⟨path.take 255, none, 0⟩).ramfsNodeCount ≥
        maxRamfsNodes := hroom
    rw [if_neg hroom, ramfsMountOp, ramfsAllocNode, if_neg hroom']
    simp only [setNode_addNode, addNode_new]
    simp [allocRoot, addNode, newNode, Vfs.setMount, Vfs.setNode, Vfs.setDir, Node.zero]

theorem vfsMount_cases {s s' : Vfs} {path fstype : Str} {r : ℤ}
    (h : vfsMount s path fstype = some (r, s')) : Mounted s path r s' := by
  unfold vfsMount at h
  by_cases hfull : s.gMountCount ≥ maxMounts
  · simp only [if_pos hfull, Option.some.injEq, Prod.mk.injEq] at h
    obtain ⟨rfl, rfl⟩ := h
    exact .refused
  have hfull' : s.gMountCount < maxMounts := Nat.lt_of_not_le hfull
  rw [if_neg hfull] at h
  cases hfs : findFsType s fstype with
  | none =>
    simp only [hfs, Option.some.injEq, Prod.mk.injEq] at h
    obtain ⟨rfl, rfl⟩ := h
    exact .refused
  | some fs =>
    simp only [hfs, ramfsMountOp_eq] at h
    by_cases hroom : s.ramfsNodeCount ≥ maxRamfsNodes
    · simp only [if_pos hroom] at h
      simp at h
      obtain ⟨rfl, rfl⟩ := h
      exact .noRoot
    have hroom' : s.ramfsNodeCount < maxRamfsNodes := Nat.lt_of_not_le hroom
    simp only [if_neg hroom, ne_eq, not_true_eq_false, if_false] at h
    have hroot : ((allocRoot s path).gMounts s.gMountCount).root = some s.ramfsNodeCount := by
      simp [allocRoot, Vfs.setMount]
    by_cases hpath : path = [slash]
    · simp only [if_pos hpath, hroot, Option.some.injEq, Prod.mk.injEq] at h
      obtain ⟨rfl, rfl⟩ := h
      exact .root hfull' hroom' hpath
    · rw [if_neg hpath] at h
      cases hres : vfsResolvePath (allocRoot s path) path with
      | crash => simp [hres] at h
      | null =>
        simp only [hres, Option.some.injEq, Prod.mk.injEq] at h
        obtain ⟨rfl, rfl⟩ := h
        exact .noPlace hfull' hroom'
      | node d =>
        simp only [hres] at h
        by_cases hdir : ((allocRoot s path).ramfsNodePool d).isDir
        · simp only [hdir, not_true_eq_false, if_false, Option.some.injEq, Prod.mk.injEq] at h
          obtain ⟨rfl, rfl⟩ := h
          exact .dir hfull' hroom' hpath hres hdir
        · simp only [hdir, not_false_eq_true, if_true, Option.some.injEq, Prod.mk.injEq] at h
          obtain ⟨rfl, rfl⟩ := h
          exact .noPlace hfull' hroom'

/-! ## The shape of the pools -/

/-- What every state has as long as nothing was unmounted: directories own the block of
their own index, and every pointer leads to an allocated node or a used mount table
entry. -/
structure Shaped (s : Vfs) : Prop where
  own_dir : ∀ n d, n < s.ramfsNodeCount → (s.ramfsNodePool n).fsData = .dir d → d = n
  child_lt : ∀ n i c, n < s.ramfsNodeCount → (s.ramfsDataPool n).children i = some c →
    c < s.ramfsNodeCount
  root_lt : ∀ r, s.gVfsRoot = some r → r < s.ramfsNodeCount
  entry_root : ∀ i < s.gMountCount, ∃ r < s.ramfsNodeCount, (s.gMounts i).root = some r
  link_lt : ∀ n k, (s.ramfsNodePool n).mount = some k → k < s.gMountCount

theorem shaped_init (frames : UInt64 → ℕ → UInt8) : Shaped (vfsInit frames) where
  own_dir _ _ h := absurd h (Nat.not_lt_zero _)
  child_lt _ _ _ h := absurd h (Nat.not_lt_zero _)
  root_lt _ h := by cases h
  entry_root _ h := absurd h (Nat.not_lt_zero _)
  link_lt _ _ h := by cases h

theorem newNode_dir {s : Vfs} {name : Str} {flags : UInt32} {d : ℕ}
    (h : (newNode s name flags).fsData = .dir d) : d = s.ramfsNodeCount := by
  by_cases hdir : flags &&& vfsDirectory ≠ 0
  · simpa [newNode, hdir, eq_comm] using h
  · simp [newNode, hdir] at h

theorem Shaped.addNode {s : Vfs} (h : Shaped s) {node : Node}
    (hdir : ∀ d, node.fsData = .dir d → d = s.ramfsNodeCount) (hmount : node.mount = none) :
    Shaped (addNode s node) where
  own_dir n d hn hd := by
    by_cases hnew : n = s.ramfsNodeCount
    · subst hnew
      rw [addNode_new] at hd
      exact hdir d hd
    · rw [addNode_old _ _ hnew] at hd
      exact h.own_dir n d (Nat.lt_of_le_of_ne (Nat.le_of_lt_succ hn) hnew) hd
  child_lt n i c hn hc := by
    by_cases hnew : n = s.ramfsNodeCount
    · subst hnew
      rw [addNode_newDir] at hc
      cases hc
    · rw [addNode_oldDir _ _ hnew] at hc
      exact (h.child_lt n i c (Nat.lt_of_le_of_ne (Nat.le_of_lt_succ hn) hnew) hc).trans
        (Nat.lt_succ_self _)
  root_lt r hr := (h.root_lt r hr).trans (Nat.lt_succ_self _)
  entry_root i hi := by
    obtain ⟨r, hr, heq⟩ := h.entry_root i hi
    exact ⟨r, hr.trans (Nat.lt_succ_self _), heq⟩
  link_lt n k hk := by
    by_cases hnew : n = s.ramfsNodeCount
    · subst hnew
      rw [addNode_new, hmount] at hk
      cases hk
    · rw [addNode_old _ _ hnew] at hk
      exact h.link_lt n k hk

theorem Shaped.created {s s' : Vfs} (h : Shaped s) {parent : ℕ} {name : Str} {flags : UInt32}
    (hc : Created s parent name flags s') : Shaped s' := by
  obtain ⟨-, -, -, -, -, -⟩ := hc
  rename_i d slot
  have hadd : Shaped (Fs.addNode s (newNode s name flags)) := h.addNode (fun _ => newNode_dir) rfl
  refine { hadd with child_lt := fun n i c hn hc => ?_ }
  simp only [enterChild, setDir_data] at hc
  by_cases hnd : n = d
  · subst hnd
    rw [Function.update_self] at hc
    by_cases his : i = slot
    · subst his
      simp only [Function.update_self, Option.some.injEq] at hc
      rw [← hc]
      exact Nat.lt_succ_self _
    · simp only [Function.update_of_ne his] at hc
      exact hadd.child_lt n i c hn hc
  · rw [Function.update_of_ne hnd] at hc
    exact hadd.child_lt n i c hn hc

/-- Writing the entry behind the used ones harms nothing. -/
theorem Shaped.setMount {s : Vfs} (h : Shaped s) (mp : Mount) :
    Shaped (s.setMount s.gMountCount mp) where
  own_dir := h.own_dir
  child_lt := h.child_lt
  root_lt := h.root_lt
  entry_root i hi := by
    obtain ⟨r, hr, heq⟩ := h.entry_root i hi
    exact ⟨r, hr, (congrArg Mount.root (setMount_of_ne s mp (Nat.ne_of_lt hi))).trans heq⟩
  link_lt := h.link_lt

theorem Shaped.allocRoot {s : Vfs} (h : Shaped s) (path : Str) : Shaped (allocRoot s path) :=
  (h.addNode (fun _ => newNode_dir) rfl).setMount _

/-- Linking a node to the next entry, which has a root, and counting that entry. -/
theorem Shaped.linkMount {s : Vfs} (h : Shaped s) (d : ℕ)
    (hroot : ∃ r < s.ramfsNodeCount, (s.gMounts s.gMountCount).root = some r) :
    Shaped { linkMount s d s.gMountCount with gMountCount := s.gMountCount + 1 } where
  own_dir n e hn he := by
    by_cases hnd : n = d
    · subst hnd
      simp only [linkMount_self] at he
      exact h.own_dir n e hn he
    · simp only [linkMount_of_ne _ _ hnd] at he
      exact h.own_dir n e hn he
  child_lt := h.child_lt
  root_lt := h.root_lt
  entry_root i hi := by
    rcases Nat.lt_succ_iff_lt_or_eq.mp hi with hlt | rfl
    · exact h.entry_root i hlt
    · exact hroot
  link_lt n k hk := by
    by_cases hnd : n = d
    · subst hnd
      simp only [linkMount_self, Option.some.injEq] at hk
      rw [← hk]
      exact Nat.lt_succ_self _
    · simp only [linkMount_of_ne _ _ hnd] at hk
      exact (h.link_lt n k hk).trans (Nat.lt_succ_self _)

theorem allocRoot_root (s : Vfs) (path : Str) :
    ((allocRoot s path).gMounts s.gMountCount).root = some s.ramfsNodeCount := by
  simp [allocRoot, Vfs.setMount]

theorem Shaped.mounted {s s' : Vfs} (h : Shaped s) {path : Str} {r : ℤ}
    (hm : Mounted s path r s') : Shaped s' := by
  have halloc := h.allocRoot path
  have hroot : ∃ r < (Fs.allocRoot s path).ramfsNodeCount,
      ((Fs.allocRoot s path).gMounts s.gMountCount).root = some r :=
    ⟨s.ramfsNodeCount, Nat.lt_succ_self _, allocRoot_root s path⟩
  cases hm with
  | refused => exact h
  | noRoot => exact h.setMount _
  | noPlace => exact halloc
  | root =>
    have hglobal : Shaped { Fs.allocRoot s path with gVfsRoot := some s.ramfsNodeCount } := by
      refine { halloc with root_lt := fun r hr => ?_ }
      rw [← Option.some.inj hr]
      exact Nat.lt_succ_self _
    exact hglobal.linkMount s.ramfsNodeCount hroot
  | @dir d => exact halloc.linkMount d hroot

/-! ## Lookups in shaped states -/

theorem ramfsFinddir_dir {s : Vfs} {n c : ℕ} {name : Str} (h : ramfsFinddir s n name = some c) :
    ∃ d i, (s.ramfsNodePool n).fsData = .dir d ∧ (s.ramfsDataPool d).children i = some c := by
  unfold ramfsFinddir at h
  by_cases hdir : (s.ramfsNodePool n).isDir
  · simp only [not_not.mpr hdir, if_false] at h
    cases hdata : (s.ramfsNodePool n).fsData with
    | null => simp [hdata] at h
    | file k => simp [hdata] at h
    | dir d =>
      simp only [hdata] at h
      obtain ⟨i, -, -, hi, -⟩ := firstSome_eq_some.mp h
      refine ⟨d, i, rfl, ?_⟩
      cases hc : (s.ramfsDataPool d).children i with
      | none => simp [hc] at hi
      | some c' =>
        simp only [hc, Option.bind_some] at hi
        split at hi
        · exact hi
        · cases hi
  · simp [hdir] at h

theorem Shaped.finddir_lt {s : Vfs} (h : Shaped s) {n c : ℕ} {name : Str}
    (hn : n < s.ramfsNodeCount) (hf : ramfsFinddir s n name = some c) : c < s.ramfsNodeCount := by
  obtain ⟨d, i, hd, hc⟩ := ramfsFinddir_dir hf
  obtain rfl := h.own_dir n d hn hd
  exact h.child_lt d i c hn hc

/-- The node behind a lookup step: itself, or the root of the entry it is linked to. -/
theorem followMount_cases (s : Vfs) (n : ℕ) :
    (followMount s n = some n ∧ ¬ ((s.ramfsNodePool n).flags &&& vfsMountpoint ≠ 0 ∧
        (s.ramfsNodePool n).mount ≠ none)) ∨
      ∃ k, (s.ramfsNodePool n).mount = some k ∧ followMount s n = (s.gMounts k).root := by
  unfold followMount
  by_cases hflag : (s.ramfsNodePool n).flags &&& vfsMountpoint ≠ 0
  · cases hm : (s.ramfsNodePool n).mount with
    | none => exact Or.inl (by simp [hm])
    | some k => exact Or.inr ⟨k, rfl, by simp [hflag, hm]⟩
  · exact Or.inl (by simp [hflag])

theorem Shaped.followMount {s : Vfs} (h : Shaped s) {n : ℕ} (hn : n < s.ramfsNodeCount) :
    ∃ m < s.ramfsNodeCount, followMount s n = some m := by
  rcases followMount_cases s n with ⟨heq, -⟩ | ⟨k, hk, heq⟩
  · exact ⟨n, hn, heq⟩
  · obtain ⟨r, hr, hroot⟩ := h.entry_root k (h.link_lt n k hk)
    exact ⟨r, hr, heq.trans hroot⟩

end Rhoudveine.Fs
