import Rhoudveine.Fs.MountTable

/-!
# What a mount shows

On its way down, `vfs_resolve_path` steps from a directory to the root of what is mounted there,
once for each component.  A mount whose place is itself the root of a mount is entered in that
root, where no lookup meets it, and one on a fat32 directory in a page that is never found again.
-/

namespace Rhoudveine.Fs.Joint
open Walk

variable {δ υ γ : Type} {fat : Fat32Ops δ υ γ} {s s' t : State δ υ γ}

/-! ## What is to hold -/

/-- The child of this name, before mounts are crossed. -/
def child (fat : Fat32Ops δ υ γ) (s : State δ υ γ) (p : NodePtr γ) (x : Str) :
    Option (NodePtr γ) := (finddir fat s p).bind fun find => find x

/-- The child of this name, or the root of what is mounted there. -/
def enter (fat : Fat32Ops δ υ γ) (s : State δ υ γ) (p : NodePtr γ) (x : Str) :
    Option (NodePtr γ) := (child fat s p x).bind (followMount s)

/-- The new mount shows: its path leads to its root, the paths below lead on from there, and all
other paths lead where they led before. -/
structure Shows (fat : Fat32Ops δ υ γ) (s : State δ υ γ) (path : Str) (s' : State δ υ γ)
    (root : NodePtr γ) : Prop where
  «at» : vfsResolvePath fat s' path = .node root
  below : ∀ p xs, p.head? = some slash → tokens p = tokens path ++ xs →
    vfsResolvePath fat s' p = .ofPointer (walk (enter fat s') root xs)
  elsewhere : ∀ p, ¬ (p.head? = some slash ∧ tokens path <+: tokens p) →
    vfsResolvePath fat s' p = vfsResolvePath fat s p

/-- The mount that the next entry of the table has become shows. -/
def NewMountShows (fat : Fat32Ops δ υ γ) (s : State δ υ γ) (path : Str) (s' : State δ υ γ) : Prop :=
  ∃ root, (s'.gMounts s.gMountCount).root = some root ∧ Shows fat s path s' root

/-- A directory of ramfs that is not the root of a mount. -/
def PlainDirectory (s : State δ υ γ) (p : NodePtr γ) : Prop :=
  (∃ n, p = .ramfs n) ∧ ∀ i < s.gMountCount, (s.gMounts i).root ≠ some p

/-- The path is `/`, leads to a plain directory of ramfs, or leads to the very root that is
mounted. -/
def CanShow (fat : Fat32Ops δ υ γ) (s : State δ υ γ) (path fstype : Str) : Prop :=
  path = [slash] ∨ ∀ d, vfsResolvePath fat s path = .node d →
    PlainDirectory s d ∨ staticRoot s fstype = some d

/-! ## Walks -/

theorem followMount_cases (s : State δ υ γ) (p : NodePtr γ) :
    followMount s p = some p ∨ ∃ n k, p = .ramfs n ∧
      (s.ramfs.ramfsNodePool n).mount = some k ∧ followMount s p = (s.gMounts k).root := by
  cases p with
  | ramfs n =>
    unfold followMount
    by_cases hflag : (s.ramfs.ramfsNodePool n).flags &&& vfsMountpoint ≠ 0
    · cases hm : (s.ramfs.ramfsNodePool n).mount with
      | none => exact Or.inl (by simp [hm])
      | some k => exact Or.inr ⟨n, k, rfl, hm, by simp [hflag, hm]⟩
    · exact Or.inl (by simp [hflag])
  | devfs => exact Or.inl rfl
  | procfs => exact Or.inl rfl
  | fat32 => exact Or.inl rfl

theorem child_ramfs_eq (n : ℕ) (x : Str) :
    child fat s (.ramfs n) x =
      (s.ramfs.ramfsNodePool n).ops.bind fun _ => (ramfsFinddir s.ramfs n x).map .ramfs :=
  Option.bind_map

theorem child_ramfs {n : ℕ} {x : Str} {p : NodePtr γ} (h : child fat s (.ramfs n) x = some p) :
    ∃ c, p = .ramfs c ∧ ramfsFinddir s.ramfs n x = some c := by
  rw [child_ramfs_eq] at h
  obtain ⟨kind, -, hx⟩ := Option.bind_eq_some_iff.mp h
  obtain ⟨c, hc, rfl⟩ := Option.map_eq_some_iff.mp hx
  exact ⟨c, rfl, hc⟩

/-- The children of other file systems are their own. -/
theorem child_other {p q : NodePtr γ} {x : Str} (h : child fat s p x = some q)
    (hp : ∀ n, p ≠ .ramfs n) : (∀ n, q ≠ .ramfs n) ∧ (Known s p → Known s q) := by
  obtain ⟨find, hfind, hx⟩ := Option.bind_eq_some_iff.mp h
  cases p with
  | ramfs n => exact absurd rfl (hp n)
  | devfs c =>
    cases c with
    | some => cases hfind
    | none =>
      obtain rfl := Option.some.inj hfind
      obtain ⟨i, -, rfl⟩ := Option.map_eq_some_iff.mp hx
      exact ⟨fun n => by simp, fun _ => trivial⟩
  | procfs c =>
    cases c with
    | some => cases hfind
    | none =>
      obtain rfl := Option.some.inj hfind
      obtain ⟨i, -, rfl⟩ := Option.map_eq_some_iff.mp hx
      exact ⟨fun n => by simp, fun _ => trivial⟩
  | fat32 v node =>
    obtain rfl := Option.some.inj hfind
    obtain ⟨fs, -, hfs⟩ := Option.bind_eq_some_iff.mp hx
    obtain ⟨node', -, rfl⟩ := Option.map_eq_some_iff.mp hfs
    exact ⟨fun n => by simp, fun hv => hv⟩

theorem followMount_other {p : NodePtr γ} (hp : ∀ n, p ≠ .ramfs n) :
    followMount s p = some p := by
  cases p with
  | ramfs n => exact absurd rfl (hp n)
  | devfs => rfl
  | procfs => rfl
  | fat32 => rfl

namespace Joined

theorem followMount_known (h : Joined s) {p : NodePtr γ} (hp : Known s p) :
    ∃ q, followMount s p = some q ∧ Known s q := by
  rcases followMount_cases s p with hself | ⟨n, k, -, hk, heq⟩
  · exact ⟨p, hself, hp⟩
  · obtain ⟨q, hq, hknown⟩ := h.entry_known k (h.link_lt n k hk)
    exact ⟨q, heq.trans hq, hknown⟩

theorem child_known (h : Joined s) {p q : NodePtr γ} {x : Str} (hp : Known s p)
    (hq : child fat s p x = some q) : Known s q := by
  by_cases hram : ∃ n, p = .ramfs n
  · obtain ⟨n, rfl⟩ := hram
    obtain ⟨c, rfl, hc⟩ := child_ramfs hq
    obtain ⟨roots, hforest, -⟩ := h.forest
    obtain ⟨-, i, hi, -⟩ := hforest.finddir_slot hc
    exact (hforest.slot n i c hi).2.2.2.1
  · exact (child_other hq fun n heq => hram ⟨n, heq⟩).2 hp

/-- Lookups stay among the known pointers. -/
theorem enter_known (h : Joined s) (p : NodePtr γ) (x : Str) (q : NodePtr γ) (hp : Known s p)
    (hq : enter fat s p x = some q) : Known s q := by
  obtain ⟨c, hc, hcq⟩ := Option.bind_eq_some_iff.mp hq
  obtain ⟨q', hq', hknown⟩ := h.followMount_known (h.child_known hp hc)
  rwa [Option.some.inj (hcq.symm.trans hq')]

theorem root_known (h : Joined s) {root : NodePtr γ} (hroot : s.gVfsRoot = some root) :
    Known s root := by
  obtain ⟨i, hi, hentry, -⟩ := h.root_entry root hroot
  obtain ⟨p, hp, hknown⟩ := h.entry_known i hi
  rwa [Option.some.inj (hentry.symm.trans hp)]

theorem resolveLoop_walk (h : Joined s) {rounds : ℕ} {cur : NodePtr γ} {p : Str}
    (hcur : Known s cur) (hrounds : p.length ≤ rounds) :
    resolveLoop fat s rounds (some cur) p =
      .ofPointer (walk (enter fat s) cur (tokens p)) := by
  refine rounds_induction (motive := fun rounds p => ∀ cur : NodePtr γ, Known s cur →
    resolveLoop fat s rounds (some cur) p = .ofPointer (walk (enter fat s) cur (tokens p)))
    ?_ ?_ ?_ hrounds cur hcur
  · intro rounds cur _
    cases rounds <;> rfl
  · intro rounds c p hempty hrest htokens ih cur hcur
    rw [resolveLoop, if_pos hempty, hrest, htokens]
    exact ih cur hcur
  · intro rounds c p hempty htokens ih cur hcur
    rw [resolveLoop, if_neg hempty, htokens, walk, enter]
    cases hfind : finddir fat s cur with
    | none =>
      rw [child, hfind]
      rfl
    | some find =>
      have hchild : child fat s cur (takeComponent 255 (c :: p)).1 =
          find (takeComponent 255 (c :: p)).1 := by rw [child, hfind, Option.bind_some]
      rw [hchild]
      dsimp only
      cases hnext : find (takeComponent 255 (c :: p)).1 with
      | none => rfl
      | some next =>
        obtain ⟨q, hq, hknown⟩ :=
          h.followMount_known (h.child_known hcur (hchild.trans hnext))
        dsimp only
        rw [Option.bind_some, hq, Option.bind_some]
        exact ih q hknown

/-- An absolute path resolves to the end of the walk along its components. -/
theorem resolve_walk (h : Joined s) {root : NodePtr γ} (hroot : s.gVfsRoot = some root)
    {path : Str} (hpath : path.head? = some slash) :
    vfsResolvePath fat s path = .ofPointer (walk (enter fat s) root (tokens path)) := by
  cases path with
  | nil => cases hpath
  | cons c p =>
    obtain rfl : c = slash := Option.some.inj hpath
    have htokens : tokens (slash :: p) = tokens p := tokens_append_slash [] p
    unfold vfsResolvePath
    rw [htokens, hroot]
    dsimp only
    rw [if_neg (not_not.mpr rfl)]
    split
    · rename_i hnil
      rw [hnil]
      rfl
    · exact h.resolveLoop_walk (h.root_known hroot) le_rfl

end Joined

theorem vfsResolvePath_relative {path : Str} (h : path.head? ≠ some slash) :
    vfsResolvePath fat s path = .null := by
  unfold vfsResolvePath
  cases path with
  | nil => cases s.gVfsRoot <;> rfl
  | cons c p =>
    have hc : c ≠ slash := fun heq => h (congrArg some heq)
    cases s.gVfsRoot with
    | none => rfl
    | some root => exact if_pos hc

/-- Only absolute paths lead anywhere, and only if there is a root. -/
theorem head_of_resolved {path : Str} {p : NodePtr γ} (h : vfsResolvePath fat s path = .node p) :
    path.head? = some slash ∧ ∃ root, s.gVfsRoot = some root := by
  constructor
  · by_contra hrel
    rw [vfsResolvePath_relative hrel] at h
    cases h
  · cases hroot : s.gVfsRoot with
    | none =>
      unfold vfsResolvePath at h
      rw [hroot] at h
      cases h
    | some root => exact ⟨root, rfl⟩

theorem Resolved.ofPointer_eq_node {p : Option (NodePtr γ)} {n : NodePtr γ} :
    Resolved.ofPointer p = .node n ↔ p = some n := by
  cases p <;> simp [Resolved.ofPointer]

/-- States in which lookups agree resolve alike. -/
theorem Joined.resolve_congr (h : Joined s) (h' : Joined s') (hroot : s'.gVfsRoot = s.gVfsRoot)
    (hsame : ∀ p x, Known s p → enter fat s' p x = enter fat s p x) (path : Str) :
    vfsResolvePath fat s' path = vfsResolvePath fat s path := by
  by_cases hhead : path.head? = some slash
  · cases hr : s.gVfsRoot with
    | none => simp only [vfsResolvePath, hroot, hr]
    | some root =>
      rw [h'.resolve_walk (hroot.trans hr) hhead, h.resolve_walk hr hhead,
        walk_congr h.enter_known hsame (h.root_known hr)]
  · rw [vfsResolvePath_relative hhead, vfsResolvePath_relative hhead]

/-! ## One way to each node of ramfs -/

namespace Joined

/-- A child is not the root of a mount. -/
theorem child_ne_root (h : Joined s) {i : ℕ} {p q : NodePtr γ} {x : Str} {r : ℕ}
    (hq : child fat s p x = some q) (hr : q = .ramfs r) (hi : i < s.gMountCount) :
    (s.gMounts i).root ≠ some q := by
  intro hentry
  obtain ⟨roots, hforest, hroots⟩ := h.forest
  by_cases hram : ∃ n, p = .ramfs n
  · obtain ⟨n, rfl⟩ := hram
    obtain ⟨c, rfl, hc⟩ := child_ramfs hq
    obtain ⟨-, j, hj, -⟩ := hforest.finddir_slot hc
    exact (hforest.slot n j c hj).2.2.2.2 (hroots i hi c hentry)
  · exact (child_other hq fun n heq => hram ⟨n, heq⟩).1 r hr

/-- A lookup that ends in ramfs starts there and ends at a child, or at the root of the mount the
child is linked to. -/
theorem enter_ramfs (h : Joined s) {p : NodePtr γ} {x : Str} {m : ℕ}
    (hx : enter fat s p x = some (.ramfs m)) :
    ∃ n c, p = .ramfs n ∧ child fat s p x = some (.ramfs c) ∧
      ramfsFinddir s.ramfs n x = some c ∧
      (c = m ∨ ∃ k < s.gMountCount, (s.ramfs.ramfsNodePool c).mount = some k ∧
        (s.gMounts k).root = some (.ramfs m)) := by
  obtain ⟨q, hq, hfollow⟩ := Option.bind_eq_some_iff.mp hx
  have hp : ∃ n, p = .ramfs n := by
    by_contra hram
    obtain ⟨hother, -⟩ := child_other hq fun n heq => hram ⟨n, heq⟩
    rw [followMount_other hother] at hfollow
    exact hother m (Option.some.inj hfollow)
  obtain ⟨n, rfl⟩ := hp
  obtain ⟨c, rfl, hc⟩ := child_ramfs hq
  refine ⟨n, c, rfl, hq, hc, ?_⟩
  rcases followMount_cases s (.ramfs c) with hself | ⟨c', k, heq, hk, hroot⟩
  · exact Or.inl (NodePtr.ramfs.inj (Option.some.inj (hself.symm.trans hfollow)))
  · obtain rfl := NodePtr.ramfs.inj heq
    exact Or.inr ⟨k, h.link_lt c k hk, hk, hroot.symm.trans hfollow⟩

/-- A path to a node of ramfs is the only one. -/
theorem walk_ramfs_inj (h : Joined s) {root : NodePtr γ} (hroot : s.gVfsRoot = some root)
    {xs ys : List Str} {m : ℕ} (hxs : walk (enter fat s) root xs = some (.ramfs m))
    (hys : walk (enter fat s) root ys = some (.ramfs m)) : xs = ys := by
  have hback (p : NodePtr γ) (x : Str) (q : NodePtr γ) (hx : enter fat s p x = some q)
      (hq : ∃ m, q = .ramfs m) : ∃ n, p = .ramfs n := by
    obtain ⟨m, rfl⟩ := hq
    obtain ⟨n, -, rfl, -⟩ := h.enter_ramfs hx
    exact ⟨n, rfl⟩
  refine walk_unique (P := fun p => ∃ m, p = .ramfs m) hback ?_ ?_ ⟨m, rfl⟩ hxs hys
  · rintro ⟨r, rfl⟩ p x hx
    obtain ⟨i, hi, hentry, hlink⟩ := h.root_entry _ hroot
    obtain ⟨n, c, rfl, hchild, -, rfl | ⟨k, hk, hmount, hkroot⟩⟩ := h.enter_ramfs hx
    · exact h.child_ne_root hchild rfl hi hentry
    · -- only the root itself is linked to its mount
      obtain rfl := h.root_inj k hk i hi r hkroot hentry
      rw [hlink c hmount] at hchild
      exact h.child_ne_root hchild rfl hi hentry
  · rintro p x p' x' - ⟨m, rfl⟩ hx hx'
    obtain ⟨n, c, rfl, hchild, hc, hcm⟩ := h.enter_ramfs hx
    obtain ⟨n', c', rfl, hchild', hc', hcm'⟩ := h.enter_ramfs hx'
    have hsame : c = c' := by
      rcases hcm with rfl | ⟨k, hk, hmount, hkroot⟩
      · rcases hcm' with rfl | ⟨k', hk', -, hkroot'⟩
        · rfl
        · exact absurd hkroot' (h.child_ne_root hchild rfl hk')
      · rcases hcm' with rfl | ⟨k', hk', hmount', hkroot'⟩
        · exact absurd hkroot (h.child_ne_root hchild' rfl hk)
        · obtain rfl := h.root_inj k hk k' hk' m hkroot hkroot'
          exact h.link_inj c c' k hmount hmount'
    obtain ⟨roots, hforest, -⟩ := h.forest
    obtain ⟨-, i, hi, hname⟩ := hforest.finddir_slot hc
    obtain ⟨-, i', hi', hname'⟩ := hforest.finddir_slot hc'
    rw [← hsame] at hi'
    obtain ⟨rfl, rfl⟩ := hforest.inj n i n' i' c hi hi'
    exact ⟨rfl, hname.symm.trans hname'⟩

end Joined

/-! ## Lookups after a mount -/

section linked

variable {fstype : Str} {root d : NodePtr γ} {vfsRoot : Option (NodePtr γ)}

/-- What `vfs_mount` leaves behind once it has linked `d`. -/
def linkedAt (s t : State δ υ γ) (d : NodePtr γ) (vfsRoot : Option (NodePtr γ)) : State δ υ γ :=
  { linkMount t s.gMountCount d with gVfsRoot := vfsRoot, gMountCount := s.gMountCount + 1 }

/-- The driver's new root changes no lookup. -/
theorem Filled.child (hf : Filled s fstype root t) (h : Joined s) {p : NodePtr γ}
    (hp : Known s p) (x : Str) : child fat t p x = Joint.child fat s p x := by
  obtain ⟨hdevfs, hprocfs, hdisk⟩ := hf.others
  cases p with
  | ramfs n =>
    obtain ⟨roots, hforest, -⟩ := h.forest
    have hpool : t.ramfs.ramfsDataPool n = s.ramfs.ramfsDataPool n := by
      rcases hf.ramfs with ⟨⟨entry, heq⟩, -⟩ | ⟨heq, -⟩
      · rw [heq]
        exact addNode_oldDir _ _ (Nat.ne_of_lt hp)
      · rw [heq]
    have hnode := hf.pool hp
    have hfind : ramfsFinddir t.ramfs n x = ramfsFinddir s.ramfs n x :=
      hforest.finddir_congr (by rw [hnode]) (by rw [hnode]) hpool x
    rw [child_ramfs_eq, child_ramfs_eq, hnode, hfind]
  | devfs c => cases c <;> simp only [Joint.child, finddir, hdevfs]
  | procfs c => cases c <;> simp only [Joint.child, finddir, hprocfs]
  | fat32 v node =>
    obtain ⟨added, hadded⟩ := hf.volumes
    have hold : t.volumes[v]? = s.volumes[v]? := by
      rw [hadded, List.getElem?_append_left hp]
    simp only [Joint.child, finddir, hold, hdisk]

/-- Neither does the link. -/
theorem child_linkedAt (h : Joined t) (p : NodePtr γ) (x : Str) :
    child fat (linkedAt s t d vfsRoot) p x = child fat t p x := by
  cases d with
  | ramfs m =>
    cases p with
    | ramfs n =>
      obtain ⟨roots, hforest, -⟩ := h.forest
      have hfields : ((Fs.linkMount t.ramfs m s.gMountCount).ramfsNodePool n).ops =
            (t.ramfs.ramfsNodePool n).ops ∧
          ((Fs.linkMount t.ramfs m s.gMountCount).ramfsNodePool n).fsData =
            (t.ramfs.ramfsNodePool n).fsData := by
        by_cases hn : n = m
        · subst hn
          rw [linkMount_self]
          exact ⟨rfl, rfl⟩
        · rw [linkMount_of_ne _ _ hn]
          exact ⟨rfl, rfl⟩
      have hfind : ramfsFinddir (Fs.linkMount t.ramfs m s.gMountCount) n x =
          ramfsFinddir t.ramfs n x :=
        hforest.finddir_congr (isDir_linkMount _ _ _ _) hfields.2 rfl x
      rw [child_ramfs_eq, child_ramfs_eq, linkedAt, linkMount]
      dsimp only
      rw [hfields.1, hfind]
    | devfs c => cases c <;> rfl
    | procfs c => cases c <;> rfl
    | fat32 => rfl
  | devfs => cases p <;> rfl
  | procfs => cases p <;> rfl
  | fat32 => cases p <;> rfl

/-- The driver's new root and the next entry change no crossing. -/
theorem Filled.followMount (hf : Filled s fstype root t) (h : Joined s) {p : NodePtr γ}
    (hp : Known s p) : followMount t p = Joint.followMount s p := by
  cases p with
  | devfs => rfl
  | procfs => rfl
  | fat32 => rfl
  | ramfs n =>
    unfold Joint.followMount
    dsimp only
    rw [hf.pool hp]
    cases hk : (s.ramfs.ramfsNodePool n).mount with
    | none => rfl
    | some k =>
      dsimp only
      rw [hf.old k (h.link_lt n k hk)]

/-- Only a link from ramfs is ever followed. -/
theorem followMount_linkedAt {p : NodePtr γ} (hother : p = d → ∀ n, d ≠ .ramfs n) :
    followMount (linkedAt s t d vfsRoot) p = followMount t p := by
  have hmounts : (linkedAt s t d vfsRoot).gMounts = t.gMounts := by cases d <;> rfl
  cases p with
  | devfs => rfl
  | procfs => rfl
  | fat32 => rfl
  | ramfs n =>
    have hnode : (linkedAt s t d vfsRoot).ramfs.ramfsNodePool n = t.ramfs.ramfsNodePool n := by
      cases d with
      | ramfs m =>
        have hn : n ≠ m := fun heq => hother (congrArg NodePtr.ramfs heq) m rfl
        exact linkMount_of_ne _ _ hn
      | devfs => rfl
      | procfs => rfl
      | fat32 => rfl
    unfold followMount
    dsimp only
    rw [hnode, hmounts]

theorem followMount_linkedAt_self (hf : Filled s fstype root t) (n : ℕ) :
    followMount (linkedAt s t (.ramfs n) vfsRoot) (.ramfs n) = some root := by
  have hnode := linkMount_self t.ramfs n s.gMountCount
  simp only [followMount, linkedAt, linkMount, hnode, if_pos (marked_flags _)]
  exact hf.new

/-- Mounting on a node of ramfs changes the lookups that find it as a child. -/
theorem enter_linkedAt_self (hf : Filled s fstype root t) (h : Joined s) {n : ℕ} {p : NodePtr γ}
    {x : Str} (hp : Known s p) (hc : child fat s p x = some (.ramfs n)) :
    enter fat (linkedAt s t (.ramfs n) vfsRoot) p x = some root := by
  rw [enter, child_linkedAt (h.filled hf), hf.child h hp, hc, Option.bind_some,
    followMount_linkedAt_self hf]

/-- It changes no others, and mounting on any other node changes none. -/
theorem enter_linkedAt (hf : Filled s fstype root t) (h : Joined s) {p : NodePtr γ} {x : Str}
    (hp : Known s p) (hother : ∀ n, d = .ramfs n → child fat s p x ≠ some d) :
    enter fat (linkedAt s t d vfsRoot) p x = enter fat s p x := by
  rw [enter, child_linkedAt (h.filled hf), hf.child h hp, enter]
  apply Option.bind_congr
  intro c hc
  rw [followMount_linkedAt, hf.followMount h (h.child_known hp hc)]
  rintro rfl n heq
  exact hother n heq hc

end linked

/-! ## The new mount -/

/-- A new root file system lies at or above every path. -/
theorem Joined.shows_root (h : Joined s') {root : NodePtr γ} (hroot : s'.gVfsRoot = some root) :
    Shows fat s [slash] s' root where
  «at» := h.resolve_walk hroot rfl
  below p xs hp htokens := by
    have hxs : tokens p = xs := htokens
    rw [h.resolve_walk hroot hp, hxs]
  elsewhere p hother := by
    have hrel : p.head? ≠ some slash := fun hp => hother ⟨hp, List.nil_prefix⟩
    rw [vfsResolvePath_relative hrel, vfsResolvePath_relative hrel]

/-- A plain directory that a path leads to is found as itself. -/
theorem Joined.child_iff (h : Joined s) {path : Str} {d : NodePtr γ}
    (hres : vfsResolvePath fat s path = .node d) (hplain : PlainDirectory s d) (p : NodePtr γ)
    (x : Str) : child fat s p x = some d ↔ enter fat s p x = some d := by
  obtain ⟨⟨n, rfl⟩, hroots⟩ := hplain
  obtain ⟨hpath, root, hroot⟩ := head_of_resolved hres
  rw [h.resolve_walk hroot hpath, Resolved.ofPointer_eq_node] at hres
  have hchild {p : NodePtr γ} {x : Str} (hx : enter fat s p x = some (.ramfs n)) :
      child fat s p x = some (.ramfs n) := by
    obtain ⟨m, c, -, hc, -, rfl | ⟨k, hk, -, hkroot⟩⟩ := h.enter_ramfs hx
    · exact hc
    · exact absurd hkroot (hroots k hk)
  have hself : followMount s (.ramfs n) = some (.ramfs n) := by
    rcases walk_end hres with rfl | ⟨q, y, hq⟩
    · obtain ⟨i, hi, hentry, -⟩ := h.root_entry _ hroot
      exact absurd hentry (hroots i hi)
    · have hedge := hq
      rwa [enter, hchild hq, Option.bind_some] at hedge
  constructor
  · intro hc
    rw [enter, hc, Option.bind_some, hself]
  · exact hchild

/-- A mount on a plain directory shows. -/
theorem Joined.shows_plain (h : Joined s) {path fstype : Str} {root d : NodePtr γ}
    (hf : Filled s fstype root t) (hres : vfsResolvePath fat s path = .node d)
    (hplain : PlainDirectory s d) : Shows fat s path (linkedAt s t d s.gVfsRoot) root := by
  obtain ⟨hpath, top, htop⟩ := head_of_resolved hres
  have h' : Joined (linkedAt s t d s.gVfsRoot) := h.linked hf (Or.inl rfl)
  have htop' : (linkedAt s t d s.gVfsRoot).gVfsRoot = some top := htop
  have hiff := h.child_iff hres hplain
  have hwalk := hres
  rw [h.resolve_walk htop hpath, Resolved.ofPointer_eq_node] at hwalk
  obtain ⟨⟨n, rfl⟩, hroots⟩ := hplain
  have hled (p : NodePtr γ) (x : Str) (hp : Known s p) (hx : enter fat s p x = some (.ramfs n)) :
      enter fat (linkedAt s t (.ramfs n) s.gVfsRoot) p x = some root :=
    enter_linkedAt_self hf h hp ((hiff p x).mpr hx)
  have hkeep (p : NodePtr γ) (x : Str) (hp : Known s p) (hx : enter fat s p x ≠ some (.ramfs n)) :
      enter fat (linkedAt s t (.ramfs n) s.gVfsRoot) p x = enter fat s p x :=
    enter_linkedAt hf h hp fun _ _ hc => hx ((hiff p x).mp hc)
  have honly (xs : List Str) (hxs : walk (enter fat s) top xs = some (.ramfs n)) :
      xs = tokens path := h.walk_ramfs_inj htop hxs hwalk
  have hne : .ramfs n ≠ top := by
    rintro rfl
    obtain ⟨i, hi, hentry, -⟩ := h.root_entry _ htop
    exact hroots i hi hentry
  have hknown := h.root_known htop
  have hbelow (p : Str) (xs : List Str) (hhead : p.head? = some slash)
      (htokens : tokens p = tokens path ++ xs) :
      vfsResolvePath fat (linkedAt s t (.ramfs n) s.gVfsRoot) p =
        .ofPointer (walk (enter fat (linkedAt s t (.ramfs n) s.gVfsRoot)) root xs) := by
    rw [h'.resolve_walk htop' hhead, htokens,
      walk_through hknown h.enter_known hkeep hled honly hwalk hne]
  exact {
    «at» := hbelow path [] hpath (List.append_nil _).symm
    below := hbelow
    elsewhere := fun p hother => by
      by_cases hhead : p.head? = some slash
      · have hoff : ¬ tokens path <+: tokens p := fun hle => hother ⟨hhead, hle⟩
        rw [h'.resolve_walk htop' hhead, h.resolve_walk htop hhead,
          walk_redirect hknown h.enter_known hkeep honly hoff]
      · rw [vfsResolvePath_relative hhead, vfsResolvePath_relative hhead] }

/-- A mount on any other node changes no lookup. -/
theorem Joined.enter_hidden (h : Joined s) {fstype : Str} {root d p : NodePtr γ}
    (hf : Filled s fstype root t) (hplain : ¬ PlainDirectory s d) (hp : Known s p) (x : Str) :
    enter fat (linkedAt s t d s.gVfsRoot) p x = enter fat s p x := by
  refine enter_linkedAt hf h hp fun n hd hc => hplain ⟨⟨n, hd⟩, fun i hi => ?_⟩
  exact h.child_ne_root hc hd hi

/-- In every state that mounts and creations lead to, a successful mount shows exactly when its
path is `/`, leads to a directory of ramfs that is not the root of a mount, or leads to the very
root that is mounted. -/
theorem mount_shows_iff {frames : UInt64 → ℕ → UInt8} {devfsNames procfsNames : List Str}
    {disk : δ} {calls : List Call}
    (hrun : Run (step fat) (init frames devfsNames procfsNames disk) calls s)
    {path fstype : Str} {device : Option Str}
    (hok : vfsMount fat s path fstype device = some (0, s')) :
    NewMountShows fat s path s' ↔ CanShow fat s path fstype := by
  have h := Joined.run hrun
  have hm := vfsMount_cases hok
  cases hm with
  | @root root t hf hpath =>
    subst hpath
    have h' : Joined (linkedAt s t root (some root)) := h.linked hf (Or.inr ⟨rfl, rfl⟩)
    have hentry : (linkedAt s t root (some root)).gMounts = t.gMounts := by cases root <;> rfl
    refine iff_of_true ⟨root, ?_, h'.shows_root rfl⟩ (Or.inl rfl)
    exact (congrArg (fun m => (m s.gMountCount).root) hentry).trans hf.new
  | @dir root d t hf hpath hres =>
    have hlinked : { linkMount t s.gMountCount d with gMountCount := s.gMountCount + 1 } =
        linkedAt s t d s.gVfsRoot := by
      have hkeep : (linkMount t s.gMountCount d).gVfsRoot = s.gVfsRoot := by
        cases d <;> exact hf.vfsRoot
      rw [linkedAt, ← hkeep]
    rw [hlinked]
    have hsame (p : NodePtr γ) (x : Str) (hp : Known s p) :
        enter fat t p x = enter fat s p x := by
      rw [enter, hf.child h hp, enter]
      apply Option.bind_congr
      intro c hc
      exact hf.followMount h (h.child_known hp hc)
    rw [h.resolve_congr (h.filled hf) hf.vfsRoot hsame] at hres
    have hnew : ((linkedAt s t d s.gVfsRoot).gMounts s.gMountCount).root = some root := by
      have hmounts : (linkedAt s t d s.gVfsRoot).gMounts = t.gMounts := by cases d <;> rfl
      rw [hmounts, hf.new]
    have h' : Joined (linkedAt s t d s.gVfsRoot) := h.linked hf (Or.inl rfl)
    obtain ⟨hhead, top, htop⟩ := head_of_resolved hres
    have hd : Known s d := by
      rw [h.resolve_walk htop hhead, Resolved.ofPointer_eq_node] at hres
      exact walk_mem h.enter_known (h.root_known htop) hres
    by_cases hplain : PlainDirectory s d
    · refine iff_of_true ⟨root, hnew, h.shows_plain hf hres hplain⟩ (Or.inr fun d' hd' => ?_)
      obtain rfl := Resolved.node.inj (hres.symm.trans hd')
      exact Or.inl hplain
    · -- no path leads elsewhere, so the mount shows if its root is where the path led before
      have hkept (p : Str) : vfsResolvePath fat (linkedAt s t d s.gVfsRoot) p =
          vfsResolvePath fat s p :=
        h.resolve_congr h' rfl (fun p x hp => h.enter_hidden hf hplain hp x) p
      constructor
      · rintro ⟨root', hroot', hshows⟩
        obtain rfl := Option.some.inj (hnew.symm.trans hroot')
        refine Or.inr fun d' hd' => Or.inr ((hf.static d' ?_).mp ?_)
        · rwa [← Resolved.node.inj (hres.symm.trans hd')]
        · exact Resolved.node.inj (hshows.at.symm.trans ((hkept path).trans hd'))
      · rintro (rfl | hall)
        · exact absurd rfl hpath
        · obtain rfl : root = d := (hf.static d hd).mpr ((hall d hres).resolve_left hplain)
          refine ⟨root, hnew, (hkept path).trans hres, fun p xs hp htokens => ?_,
            fun p _ => hkept p⟩
          have hwalk := hres
          rw [h.resolve_walk htop hhead, Resolved.ofPointer_eq_node] at hwalk
          rw [hkept p, h.resolve_walk htop hp, htokens, walk_append, hwalk, Option.bind_some,
            walk_congr h.enter_known (fun p x hp => h.enter_hidden hf hplain hp x) hd]

/-! ## Mounting at `/etc` twice -/

/-- A machine without a disk. -/
def noDisk : Fat32Ops Unit Unit Unit where
  mount _ _ := none
  flags _ := 0
  finddir _ _ _ _ := none
  create _ _ _ _ _ := (-1, (), ())

def twice₀ : State Unit Unit Unit := init (fun _ _ => 0) [] [] ()
def twice₁ : ℤ × State Unit Unit Unit :=
  (call noDisk twice₀ (.mount (str "/") (str "ramfs") none)).get (by decide +kernel)
def twice₂ : ℤ × State Unit Unit Unit :=
  (call noDisk twice₁.2 (.mkdir (str "/etc"))).get (by decide +kernel)
def twice₃ : ℤ × State Unit Unit Unit :=
  (call noDisk twice₂.2 (.mount (str "/etc") (str "ramfs") none)).get (by decide +kernel)
def twice₄ : ℤ × State Unit Unit Unit :=
  (call noDisk twice₃.2 (.mount (str "/etc") (str "ramfs") none)).get (by decide +kernel)

theorem twice_run₂ : Run (step noDisk) twice₀
    [.mount (str "/") (str "ramfs") none, .mkdir (str "/etc")] twice₂.2 := by
  have hmount : call noDisk twice₀ (.mount (str "/") (str "ramfs") none) = some twice₁ :=
    (Option.some_get _).symm
  have hmkdir : call noDisk twice₁.2 (.mkdir (str "/etc")) = some twice₂ :=
    (Option.some_get _).symm
  exact .cons ⟨_, hmount⟩ (.cons ⟨_, hmkdir⟩ (.nil _))

theorem twice_mount₃ :
    vfsMount noDisk twice₂.2 (str "/etc") (str "ramfs") none = some (0, twice₃.2) := by
  have hzero : twice₃.1 = 0 := by decide +kernel
  have hmade : vfsMount noDisk twice₂.2 (str "/etc") (str "ramfs") none = some twice₃ :=
    (Option.some_get _).symm
  rw [hmade]
  exact congrArg some (Prod.ext hzero rfl)

theorem twice_mount₄ :
    vfsMount noDisk twice₃.2 (str "/etc") (str "ramfs") none = some (0, twice₄.2) := by
  have hzero : twice₄.1 = 0 := by decide +kernel
  have hmade : vfsMount noDisk twice₃.2 (str "/etc") (str "ramfs") none = some twice₄ :=
    (Option.some_get _).symm
  rw [hmade]
  exact congrArg some (Prod.ext hzero rfl)

/-- The first mount at `/etc` shows. -/
theorem mount_shows_etc : NewMountShows noDisk twice₂.2 (str "/etc") twice₃.2 := by
  refine (mount_shows_iff twice_run₂ twice_mount₃).mpr (Or.inr fun d hd => Or.inl ?_)
  have hres : vfsResolvePath noDisk twice₂.2 (str "/etc") = .node (.ramfs 1) := by decide +kernel
  have hcount : twice₂.2.gMountCount = 1 := by decide +kernel
  have hroot : (twice₂.2.gMounts 0).root = some (.ramfs 0) := by decide +kernel
  obtain rfl := Resolved.node.inj (hres.symm.trans hd)
  refine ⟨⟨1, rfl⟩, fun i hi => ?_⟩
  obtain rfl : i = 0 := by omega
  rw [hroot]
  decide

/-- The second one returns 0, but `/etc` still leads to the first. -/
theorem second_mount_hidden :
    Run (step noDisk) (init (fun _ _ => 0) [] [] ())
        [.mount (str "/") (str "ramfs") none, .mkdir (str "/etc"),
          .mount (str "/etc") (str "ramfs") none] twice₃.2 ∧
      vfsMount noDisk twice₃.2 (str "/etc") (str "ramfs") none = some (0, twice₄.2) ∧
      ¬ NewMountShows noDisk twice₃.2 (str "/etc") twice₄.2 := by
  refine ⟨twice_run₂.append (.cons ⟨0, twice_mount₃⟩ (.nil _)), twice_mount₄, ?_⟩
  rintro ⟨root, hroot, hshows⟩
  have hcount : twice₃.2.gMountCount = 2 := by decide +kernel
  have hnew : (twice₄.2.gMounts 2).root = some (.ramfs 3) := by decide +kernel
  have hres : vfsResolvePath noDisk twice₄.2 (str "/etc") = .node (.ramfs 2) := by decide +kernel
  rw [hcount, hnew] at hroot
  have hleads := hshows.at
  rw [hres, ← Option.some.inj hroot] at hleads
  cases hleads

end Rhoudveine.Fs.Joint
