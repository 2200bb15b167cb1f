import Rhoudveine.Fs.Joint

/-!
# The mount table

What `vfs_mount` can do to the tables, one case per outcome, and what mounts and creations keep:
every mount of ramfs has a root of its own and is linked from one node.
-/

namespace Rhoudveine.Fs.Joint

variable {δ υ γ : Type} {fat : Fat32Ops δ υ γ} {s s' t : State δ υ γ}

/-! ## Outcomes -/

/-- The static root that DeviceFS and ProcessFS give to all their mounts. -/
def Driver.staticRoot : Driver → Option (NodePtr γ)
  | .devfs => some (.devfs none)
  | .procfs => some (.procfs none)
  | .ramfs | .fat32 => none

def staticRoot (s : State δ υ γ) (fstype : Str) : Option (NodePtr γ) :=
  (findFsType s fstype).bind fun fs => fs.driver.staticRoot

/-- Pointers into the pool and to the volumes there are. -/
def Known (s : State δ υ γ) : NodePtr γ → Prop
  | .ramfs n => n < s.ramfs.ramfsNodeCount
  | .fat32 v _ => v < s.volumes.length
  | .devfs _ | .procfs _ => True

/-- The driver has added its root, and the next entry names it. -/
structure Filled (s : State δ υ γ) (fstype : Str) (root : NodePtr γ) (t : State δ υ γ) : Prop where
  count : t.gMountCount = s.gMountCount
  new : (t.gMounts s.gMountCount).root = some root
  old : ∀ i < s.gMountCount, t.gMounts i = s.gMounts i
  vfsRoot : t.gVfsRoot = s.gVfsRoot
  others : t.devfsNames = s.devfsNames ∧ t.procfsNames = s.procfsNames ∧ t.disk = s.disk
  volumes : ∃ added, t.volumes = s.volumes ++ added
  ramfs : (∃ entry, t.ramfs =
      (addNode s.ramfs (newNode s.ramfs [slash] vfsDirectory)).setMount s.gMountCount entry) ∧
      root = .ramfs s.ramfs.ramfsNodeCount ∨
    t.ramfs = s.ramfs ∧ ∀ n, root ≠ .ramfs n
  known : Known t root
  static : ∀ p, Known s p → (root = p ↔ staticRoot s fstype = some p)

/-- The outcomes of `vfs_mount` that do not crash. -/
inductive Mounted (fat : Fat32Ops δ υ γ) (s : State δ υ γ) (path fstype : Str) :
    ℤ → State δ υ γ → Prop
  /-- The table is full or the type unknown. -/
  | refused : Mounted fat s path fstype (-1) s
  /-- The driver has no root to offer. -/
  | noRoot (entry : MountPoint γ) :
      Mounted fat s path fstype (-1) (s.setMount s.gMountCount entry)
  /-- The mount point is missing or no directory. -/
  | noPlace {root : NodePtr γ} {t : State δ υ γ} : Filled s fstype root t →
      Mounted fat s path fstype (-1) t
  | root {root : NodePtr γ} {t : State δ υ γ} : Filled s fstype root t → path = [slash] →
      Mounted fat s path fstype 0
        { linkMount t s.gMountCount root with
          gVfsRoot := some root, gMountCount := s.gMountCount + 1 }
  | dir {root d : NodePtr γ} {t : State δ υ γ} : Filled s fstype root t → path ≠ [slash] →
      vfsResolvePath fat t path = .node d →
      Mounted fat s path fstype 0
        { linkMount t s.gMountCount d with gMountCount := s.gMountCount + 1 }

theorem filled_setMount {entry entry' : MountPoint γ} {fstype : Str} {root : NodePtr γ}
    {pools : Vfs} {volumes : List υ} (hentry : entry'.root = some root)
    (hvolumes : ∃ added, volumes = s.volumes ++ added)
    (hramfs : (∃ entry, pools =
        (addNode s.ramfs (newNode s.ramfs [slash] vfsDirectory)).setMount s.gMountCount entry) ∧
        root = .ramfs s.ramfs.ramfsNodeCount ∨ pools = s.ramfs ∧ ∀ n, root ≠ .ramfs n)
    (hknown : Known { s with ramfs := pools, volumes := volumes } root)
    (hstatic : ∀ p, Known s p → (root = p ↔ staticRoot s fstype = some p)) :
    Filled s fstype root
      (State.setMount { s.setMount s.gMountCount entry with ramfs := pools, volumes := volumes }
        s.gMountCount entry') where
  count := rfl
  new := by
    simp only [State.setMount, Function.update_self]
    exact hentry
  old i hi := by
    have hne := Nat.ne_of_lt hi
    simp only [State.setMount, Function.update_of_ne hne]
  vfsRoot := rfl
  others := ⟨rfl, rfl, rfl⟩
  volumes := hvolumes
  ramfs := hramfs
  known := by cases root <;> exact hknown
  static := hstatic

theorem mountRoot_filled {entry entry' : MountPoint γ} {device : Option Str} {fstype : Str}
    {fs : FilesystemType} {root : NodePtr γ} (hfs : findFsType s fstype = some fs)
    (hm : mountRoot fat (s.setMount s.gMountCount entry) device s.gMountCount fs.driver =
      some (root, t)) (hentry : entry'.root = some root) :
    Filled s fstype root (t.setMount s.gMountCount entry') := by
  have hstatic : staticRoot s fstype = fs.driver.staticRoot := by
    rw [staticRoot, hfs, Option.bind_some]
  have hsame : ∃ added, s.volumes = s.volumes ++ added := ⟨[], (List.append_nil _).symm⟩
  -- a new pointer is not known before
  have hfresh (hnone : staticRoot s fstype = none) (hroot : ¬ Known s root) (p : NodePtr γ)
      (hp : Known s p) : root = p ↔ staticRoot s fstype = some p := by
    rw [hnone]
    refine iff_of_false (fun heq => ?_) (by simp)
    exact hroot (heq ▸ hp)
  cases hd : fs.driver with
  | ramfs =>
    rw [hd] at hm hstatic
    rcases ramfsMountOp_cases s.ramfs s.gMountCount with heq | heq
    · simp [mountRoot, State.setMount, heq] at hm
    · simp only [mountRoot, State.setMount, heq, Vfs.setMount, ne_eq, not_true_eq_false, if_false,
        Function.update_self, Option.map_some, Option.some.injEq, Prod.mk.injEq] at hm
      obtain ⟨rfl, rfl⟩ := hm
      exact filled_setMount hentry hsame (Or.inl ⟨⟨_, rfl⟩, rfl⟩) (Nat.lt_succ_self _)
        (hfresh hstatic (lt_irrefl _))
  | devfs =>
    rw [hd] at hm hstatic
    obtain ⟨rfl, rfl⟩ := Prod.mk.inj (Option.some.inj hm)
    refine filled_setMount hentry hsame (Or.inr ⟨rfl, fun n => by simp⟩) trivial fun p _ => ?_
    rw [hstatic]
    exact Option.some_inj.symm
  | procfs =>
    rw [hd] at hm hstatic
    obtain ⟨rfl, rfl⟩ := Prod.mk.inj (Option.some.inj hm)
    refine filled_setMount hentry hsame (Or.inr ⟨rfl, fun n => by simp⟩) trivial fun p _ => ?_
    rw [hstatic]
    exact Option.some_inj.symm
  | fat32 =>
    rw [hd] at hm hstatic
    obtain ⟨out, -, heq⟩ := Option.map_eq_some_iff.mp hm
    obtain ⟨rfl, rfl⟩ := Prod.mk.inj heq
    have hlt : s.volumes.length < (s.volumes ++ [out.1]).length := by
      rw [List.length_append]
      exact Nat.lt_succ_self _
    exact filled_setMount hentry ⟨[out.1], rfl⟩ (Or.inr ⟨rfl, fun n => by simp⟩) hlt
      (hfresh hstatic (lt_irrefl _))

theorem vfsMount_cases {path fstype : Str} {device : Option Str} {r : ℤ}
    (h : vfsMount fat s path fstype device = some (r, s')) : Joint.Mounted fat s path fstype r s' := by
  unfold vfsMount at h
  by_cases hfull : s.gMountCount ≥ maxMounts
  · rw [if_pos hfull] at h
    cases h
    exact .refused
  rw [if_neg hfull] at h
  cases hfs : findFsType s fstype with
  | none =>
    rw [hfs] at h
    cases h
    exact .refused
  | some fs =>
    simp only [hfs] at h
    cases hm : mountRoot fat (s.setMount s.gMountCount ⟨path.take 255, none, 0⟩) device
        s.gMountCount fs.driver with
    | none =>
      simp only [hm, Option.some.injEq, Prod.mk.injEq] at h
      obtain ⟨rfl, rfl⟩ := h
      exact .noRoot _
    | some out =>
      obtain ⟨root, t⟩ := out
      have hfilled : Filled s fstype root
          (t.setMount s.gMountCount ⟨path.take 255, some root, 0⟩) := mountRoot_filled hfs hm rfl
      simp only [hm] at h
      by_cases hpath : path = [slash]
      · simp only [if_pos hpath, Option.some.injEq, Prod.mk.injEq] at h
        obtain ⟨rfl, rfl⟩ := h
        exact .root hfilled hpath
      · rw [if_neg hpath] at h
        cases hres : vfsResolvePath fat
            (t.setMount s.gMountCount ⟨path.take 255, some root, 0⟩) path with
        | crash => simp [hres] at h
        | null =>
          simp only [hres, Option.some.injEq, Prod.mk.injEq] at h
          obtain ⟨rfl, rfl⟩ := h
          exact .noPlace hfilled
        | node d =>
          simp only [hres] at h
          split at h
          · obtain ⟨rfl, rfl⟩ := Prod.mk.inj (Option.some.inj h)
            exact .noPlace hfilled
          · obtain ⟨rfl, rfl⟩ := Prod.mk.inj (Option.some.inj h)
            exact .dir hfilled hpath hres

/-! ## Reached states -/

/-- Every mount of ramfs has a root of its own, which is nobody's child, and is linked from one
node. -/
structure Joined (s : State δ υ γ) : Prop where
  forest : ∃ roots, Forest s.ramfs roots ∧
    ∀ i < s.gMountCount, ∀ r, (s.gMounts i).root = some (.ramfs r) → r ∈ roots
  entry_known : ∀ i < s.gMountCount, ∃ p, (s.gMounts i).root = some p ∧ Known s p
  root_entry : ∀ p, s.gVfsRoot = some p → ∃ i < s.gMountCount, (s.gMounts i).root = some p ∧
    ∀ n, (s.ramfs.ramfsNodePool n).mount = some i → .ramfs n = p
  root_inj : ∀ i < s.gMountCount, ∀ j < s.gMountCount, ∀ r,
    (s.gMounts i).root = some (.ramfs r) → (s.gMounts j).root = some (.ramfs r) → i = j
  link_lt : ∀ n k, (s.ramfs.ramfsNodePool n).mount = some k → k < s.gMountCount
  link_inj : ∀ n n' k, (s.ramfs.ramfsNodePool n).mount = some k →
    (s.ramfs.ramfsNodePool n').mount = some k → n = n'

namespace Filled

variable {fstype : Str} {root : NodePtr γ} {roots : Finset ℕ}

/-- Nodes of the pool are as before. -/
theorem pool (hf : Filled s fstype root t) {n : ℕ} (hn : n < s.ramfs.ramfsNodeCount) :
    t.ramfs.ramfsNodePool n = s.ramfs.ramfsNodePool n := by
  rcases hf.ramfs with ⟨⟨entry, heq⟩, -⟩ | ⟨heq, -⟩
  · rw [heq]
    exact addNode_old _ _ (Nat.ne_of_lt hn)
  · rw [heq]

/-- The new root is linked to nothing. -/
theorem mount (hf : Filled s fstype root t) {n k : ℕ}
    (hk : (t.ramfs.ramfsNodePool n).mount = some k) :
    (s.ramfs.ramfsNodePool n).mount = some k := by
  rcases hf.ramfs with ⟨⟨entry, heq⟩, -⟩ | ⟨heq, -⟩
  · rw [heq] at hk
    by_cases hnew : n = s.ramfs.ramfsNodeCount
    · have hself : ((addNode s.ramfs (newNode s.ramfs [slash] vfsDirectory)).setMount
          s.gMountCount entry).ramfsNodePool s.ramfs.ramfsNodeCount =
            newNode s.ramfs [slash] vfsDirectory := addNode_new _ _
      rw [hnew, hself] at hk
      cases hk
    · have hold : ((addNode s.ramfs (newNode s.ramfs [slash] vfsDirectory)).setMount
          s.gMountCount entry).ramfsNodePool n = s.ramfs.ramfsNodePool n := addNode_old _ _ hnew
      rwa [hold] at hk
  · rwa [heq] at hk

theorem forest (hf : Filled s fstype root t) (h : Forest s.ramfs roots) :
    ∃ roots', Forest t.ramfs roots' ∧ roots ⊆ roots' ∧ ∀ r, root = .ramfs r → r ∈ roots' := by
  rcases hf.ramfs with ⟨⟨entry, heq⟩, hroot⟩ | ⟨heq, hother⟩
  · refine ⟨insert s.ramfs.ramfsNodeCount roots, ?_, Finset.subset_insert _ _, fun r hr => ?_⟩
    · rw [heq]
      exact (h.addRoot [slash]).congr rfl rfl rfl
    · rw [← NodePtr.ramfs.inj (hroot.symm.trans hr)]
      exact Finset.mem_insert_self _ _
  · rw [heq]
    exact ⟨roots, h, Finset.Subset.refl _, fun r hr => absurd hr (hother r)⟩

theorem known_mono (hf : Filled s fstype root t) {p : NodePtr γ} (hp : Known s p) : Known t p := by
  cases p with
  | ramfs n =>
    rcases hf.ramfs with ⟨⟨entry, heq⟩, -⟩ | ⟨heq, -⟩
    · rw [Known, heq]
      exact Nat.lt_succ_of_lt hp
    · rwa [Known, heq]
  | devfs => trivial
  | procfs => trivial
  | fat32 v node =>
    obtain ⟨added, hadded⟩ := hf.volumes
    rw [Known, hadded, List.length_append]
    exact Nat.lt_add_right _ hp

theorem root_fresh (hf : Filled s fstype root t) {r : ℕ} (hr : root = .ramfs r) :
    r = s.ramfs.ramfsNodeCount := by
  rcases hf.ramfs with ⟨-, hroot⟩ | ⟨-, hother⟩
  · exact NodePtr.ramfs.inj (hr.symm.trans hroot)
  · exact absurd hr (hother r)

end Filled

theorem known_linkMount {mp : ℕ} {d p : NodePtr γ} : Known (linkMount s mp d) p ↔ Known s p := by
  cases d <;> cases p <;> rfl

theorem mount_linkMount {mp n k : ℕ} {d : NodePtr γ}
    (hk : ((linkMount s mp d).ramfs.ramfsNodePool n).mount = some k) :
    .ramfs n = d ∧ k = mp ∨ .ramfs n ≠ d ∧ (s.ramfs.ramfsNodePool n).mount = some k := by
  cases d with
  | ramfs m =>
    by_cases hn : n = m
    · subst hn
      simp only [linkMount, linkMount_self] at hk
      exact Or.inl ⟨rfl, (Option.some.inj hk).symm⟩
    · simp only [linkMount, linkMount_of_ne _ _ hn] at hk
      exact Or.inr ⟨fun heq => hn (NodePtr.ramfs.inj heq), hk⟩
  | devfs => exact Or.inr ⟨by simp, hk⟩
  | procfs => exact Or.inr ⟨by simp, hk⟩
  | fat32 => exact Or.inr ⟨by simp, hk⟩

theorem forest_linkMount {mp : ℕ} {roots : Finset ℕ} (h : Forest s.ramfs roots) (d : NodePtr γ) :
    Forest (linkMount s mp d).ramfs roots := by
  cases d with
  | ramfs m => exact h.linkMount m mp
  | devfs => exact h
  | procfs => exact h
  | fat32 => exact h

namespace Joined

theorem init (frames : UInt64 → ℕ → UInt8) (devfsNames procfsNames : List Str) (disk : δ) :
    Joined (init frames devfsNames procfsNames disk : State δ υ γ) where
  forest := ⟨∅, Forest.init frames, fun _ hi => absurd hi (Nat.not_lt_zero _)⟩
  entry_known _ hi := absurd hi (Nat.not_lt_zero _)
  root_entry _ hr := by cases hr
  root_inj _ hi := absurd hi (Nat.not_lt_zero _)
  link_lt _ _ hk := by cases hk
  link_inj _ _ _ hk := by cases hk

/-- What entries behind the used ones hold does not matter. -/
theorem setMount (h : Joined s) (mp : MountPoint γ) : Joined (s.setMount s.gMountCount mp) := by
  have hold (i : ℕ) (hi : i < s.gMountCount) :
      (s.setMount s.gMountCount mp).gMounts i = s.gMounts i :=
    Function.update_of_ne (Nat.ne_of_lt hi) _ _
  exact {
    forest := by
      obtain ⟨roots, hf, hroots⟩ := h.forest
      refine ⟨roots, hf, fun i hi r hr => hroots i hi r ?_⟩
      rwa [hold i hi] at hr
    entry_known := fun i hi => by
      rw [hold i hi]
      exact h.entry_known i hi
    root_entry := fun p hp => by
      obtain ⟨i, hi, hentry, hlink⟩ := h.root_entry p hp
      exact ⟨i, hi, by rwa [hold i hi], hlink⟩
    root_inj := fun i hi j hj r hr hr' => by
      rw [hold i hi] at hr
      rw [hold j hj] at hr'
      exact h.root_inj i hi j hj r hr hr'
    link_lt := h.link_lt
    link_inj := h.link_inj }

/-- A driver adds its root. -/
theorem filled (h : Joined s) {fstype : Str} {root : NodePtr γ} (hf : Filled s fstype root t) :
    Joined t where
  forest := by
    obtain ⟨roots, hforest, hroots⟩ := h.forest
    obtain ⟨roots', hforest', hsub, -⟩ := hf.forest hforest
    refine ⟨roots', hforest', fun i hi r hr => ?_⟩
    rw [hf.count] at hi
    rw [hf.old i hi] at hr
    exact hsub (hroots i hi r hr)
  entry_known i hi := by
    rw [hf.count] at hi
    obtain ⟨p, hp, hknown⟩ := h.entry_known i hi
    exact ⟨p, by rwa [hf.old i hi], hf.known_mono hknown⟩
  root_entry p hp := by
    rw [hf.vfsRoot] at hp
    obtain ⟨i, hi, hentry, hlink⟩ := h.root_entry p hp
    rw [hf.count]
    exact ⟨i, hi, by rwa [hf.old i hi], fun n hn => hlink n (hf.mount hn)⟩
  root_inj i hi j hj r hr hr' := by
    rw [hf.count] at hi hj
    rw [hf.old i hi] at hr
    rw [hf.old j hj] at hr'
    exact h.root_inj i hi j hj r hr hr'
  link_lt n k hk := by
    rw [hf.count]
    exact h.link_lt n k (hf.mount hk)
  link_inj n n' k hk hk' := h.link_inj n n' k (hf.mount hk) (hf.mount hk')

/-- The new mount is entered at `d`, and the root of the file systems stays or becomes the root
that is mounted. -/
theorem linked (h : Joined s) {fstype : Str} {root d : NodePtr γ} {vfsRoot : Option (NodePtr γ)}
    (hf : Filled s fstype root t)
    (hroot : vfsRoot = s.gVfsRoot ∨ d = root ∧ vfsRoot = some root) :
    Joined { linkMount t s.gMountCount d with
      gVfsRoot := vfsRoot, gMountCount := s.gMountCount + 1 } := by
  have hmounts : (linkMount t s.gMountCount d).gMounts = t.gMounts := by cases d <;> rfl
  have hcases {i : ℕ} (hi : i < s.gMountCount + 1) : i < s.gMountCount ∨ i = s.gMountCount :=
    Nat.lt_succ_iff_lt_or_eq.mp hi
  have hfresh {i r : ℕ} (hi : i < s.gMountCount) (hr : root = .ramfs r) :
      (s.gMounts i).root ≠ some (.ramfs r) := by
    intro heq
    obtain ⟨p, hp, hknown⟩ := h.entry_known i hi
    obtain rfl := Option.some.inj (hp.symm.trans heq)
    rw [hf.root_fresh hr] at hknown
    exact lt_irrefl _ hknown
  have hold {n k : ℕ} (hk : (t.ramfs.ramfsNodePool n).mount = some k) : k < s.gMountCount :=
    h.link_lt n k (hf.mount hk)
  exact {
    forest := by
      obtain ⟨roots, hforest, hroots⟩ := h.forest
      obtain ⟨roots', hforest', hsub, hnew⟩ := hf.forest hforest
      refine ⟨roots', forest_linkMount hforest' d, fun i hi r hr => ?_⟩
      dsimp only at hr
      rw [hmounts] at hr
      rcases hcases hi with hlt | rfl
      · rw [hf.old i hlt] at hr
        exact hsub (hroots i hlt r hr)
      · exact hnew r (Option.some.inj (hf.new.symm.trans hr))
    entry_known := fun i hi => by
      dsimp only
      rw [hmounts]
      rcases hcases hi with hlt | rfl
      · obtain ⟨p, hp, hknown⟩ := h.entry_known i hlt
        exact ⟨p, by rwa [hf.old i hlt], known_linkMount.mpr (hf.known_mono hknown)⟩
      · exact ⟨root, hf.new, known_linkMount.mpr hf.known⟩
    root_entry := fun p hp => by
      dsimp only at hp ⊢
      rw [hmounts]
      rcases hroot with rfl | ⟨rfl, rfl⟩
      · -- the old root keeps its entry
        obtain ⟨i, hi, hentry, hlink⟩ := h.root_entry p hp
        refine ⟨i, Nat.lt_succ_of_lt hi, by rwa [hf.old i hi], fun n hn => ?_⟩
        rcases mount_linkMount hn with ⟨-, rfl⟩ | ⟨-, hn⟩
        · exact absurd hi (lt_irrefl _)
        · exact hlink n (hf.mount hn)
      · -- the new root is linked to its own mount
        refine ⟨s.gMountCount, Nat.lt_succ_self _, hf.new.trans hp, fun n hn => ?_⟩
        rcases mount_linkMount hn with ⟨heq, -⟩ | ⟨-, hn⟩
        · exact heq.trans (Option.some.inj hp)
        · exact absurd (hold hn) (lt_irrefl _)
    root_inj := fun i hi j hj r hr hr' => by
      dsimp only at hr hr'
      rw [hmounts] at hr hr'
      rcases hcases hi with hlt | rfl
      · rw [hf.old i hlt] at hr
        rcases hcases hj with hlt' | rfl
        · rw [hf.old j hlt'] at hr'
          exact h.root_inj i hlt j hlt' r hr hr'
        · exact absurd hr (hfresh hlt (Option.some.inj (hf.new.symm.trans hr')))
      · rcases hcases hj with hlt' | rfl
        · rw [hf.old j hlt'] at hr'
          exact absurd hr' (hfresh hlt' (Option.some.inj (hf.new.symm.trans hr)))
        · rfl
    link_lt := fun n k hk => by
      rcases mount_linkMount hk with ⟨-, rfl⟩ | ⟨-, hk⟩
      · exact Nat.lt_succ_self _
      · exact Nat.lt_succ_of_lt (hold hk)
    link_inj := fun n n' k hk hk' => by
      rcases mount_linkMount hk with ⟨hn, rfl⟩ | ⟨-, hk⟩
      · rcases mount_linkMount hk' with ⟨hn', -⟩ | ⟨-, hk'⟩
        · exact NodePtr.ramfs.inj (hn.trans hn'.symm)
        · exact absurd (hold hk') (lt_irrefl _)
      · rcases mount_linkMount hk' with ⟨-, rfl⟩ | ⟨-, hk'⟩
        · exact absurd (hold hk) (lt_irrefl _)
        · exact h.link_inj n n' k (hf.mount hk) (hf.mount hk') }

theorem mounted (h : Joined s) {path fstype : Str} {r : ℤ}
    (hm : Joint.Mounted fat s path fstype r s') : Joined s' := by
  cases hm with
  | refused => exact h
  | noRoot entry => exact h.setMount entry
  | noPlace hf => exact h.filled hf
  | root hf => exact h.linked hf (Or.inr ⟨rfl, rfl⟩)
  | @dir root d t hf =>
    have hkeep : (linkMount t s.gMountCount d).gVfsRoot = s.gVfsRoot := by
      cases d <;> exact hf.vfsRoot
    exact h.linked hf (Or.inl hkeep)

/-- A new child of ramfs, or new contents of a fat32 volume. -/
theorem created (h : Joined s) {flags : UInt32} {path : Str} {r : ℤ}
    (hc : createAt fat flags s path = some (r, s')) : Joined s' := by
  unfold createAt at hc
  split at hc
  · cases hc
  · cases hc
    exact h
  · rename_i parent _
    split at hc
    · cases hc
      exact h
    · -- a ramfs parent: the tree grows, and no mount link changes
      obtain ⟨rfl, rfl⟩ := Prod.mk.inj (Option.some.inj hc)
      rcases ramfsCreate_cases s.ramfs parent (vfsBasename path) flags with heq | ⟨u, heq, hmade⟩
      · rw [heq]
        exact h
      · rw [heq]
        obtain ⟨roots, hforest, hroots⟩ := h.forest
        have hforest' := hforest.created hmade
        have hcount : s.ramfs.ramfsNodeCount ≤ u.ramfsNodeCount := by
          obtain ⟨-, -, -, -, -, -⟩ := hmade
          exact Nat.le_succ _
        have hmount {n k : ℕ} (hk : (u.ramfsNodePool n).mount = some k) :
            (s.ramfs.ramfsNodePool n).mount = some k := by
          obtain ⟨-, -, -, -, -, -⟩ := hmade
          by_cases hnew : n = s.ramfs.ramfsNodeCount
          · rw [hnew, enterChild_new] at hk
            cases hk
          · rwa [enterChild_old hnew] at hk
        exact {
          forest := ⟨roots, hforest', hroots⟩
          entry_known := fun i hi => by
            obtain ⟨p, hp, hknown⟩ := h.entry_known i hi
            refine ⟨p, hp, ?_⟩
            cases p with
            | ramfs n => exact lt_of_lt_of_le hknown hcount
            | devfs => trivial
            | procfs => trivial
            | fat32 => exact hknown
          root_entry := fun p hp => by
            obtain ⟨i, hi, hentry, hlink⟩ := h.root_entry p hp
            exact ⟨i, hi, hentry, fun n hn => hlink n (hmount hn)⟩
          root_inj := h.root_inj
          link_lt := fun n k hk => h.link_lt n k (hmount hk)
          link_inj := fun n n' k hk hk' => h.link_inj n n' k (hmount hk) (hmount hk') }
  · cases hc
    exact h
  · cases hc
    exact h
  · split at hc
    · cases hc
      exact h
    · -- a FAT32 parent: its node list keeps its length
      obtain ⟨rfl, rfl⟩ := Prod.mk.inj (Option.some.inj hc)
      refine { h with entry_known := fun i hi => ?_ }
      obtain ⟨p, hp, hknown⟩ := h.entry_known i hi
      refine ⟨p, hp, ?_⟩
      cases p with
      | fat32 =>
        rw [Known] at hknown ⊢
        rwa [List.length_set]
      | ramfs => exact hknown
      | devfs => trivial
      | procfs => trivial

theorem step (h : Joined s) {c : Call} (hs : step fat s c s') : Joined s' := by
  obtain ⟨r, hcall⟩ := hs
  cases c with
  | mount path fstype device => exact h.mounted (vfsMount_cases hcall)
  | mkdir path => exact h.created hcall
  | create path => exact h.created hcall

theorem run {frames : UInt64 → ℕ → UInt8} {devfsNames procfsNames : List Str} {disk : δ}
    {calls : List Call}
    (hrun : Run (Joint.step fat) (Joint.init frames devfsNames procfsNames disk) calls s) :
    Joined s :=
  hrun.invariant (fun _ _ _ h hs => h.step hs) (init frames devfsNames procfsNames disk)

end Joined

end Rhoudveine.Fs.Joint
