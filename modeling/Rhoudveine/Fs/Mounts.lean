import Rhoudveine.Fs.Resolve
import Rhoudveine.Lib.Run

/-!
# Mounting and unmounting

Runs of `vfs_mount`, `vfs_unmount`, `vfs_mkdir` and `vfs_create`, with a record for
every used mount table entry of the path it was mounted at and the state before.
`vfs_unmount` removes the entry but neither clears the mark on the node it was
mounted at nor `g_vfs_root`, so the first unmount of a run never restores anything.
-/

namespace Rhoudveine.Fs
open Search

/-! ## Runs with a history -/

/-- How a used entry of the mount table came about. -/
structure Made where
  path : Str
  before : Vfs

/-- A state with the history of its used mount table entries, in table order. -/
structure Traced where
  vfs : Vfs
  made : List Made

inductive MountOp
  | mount (path fstype : Str)
  | unmount (path : Str)
  | mkdir (path : Str)
  | create (path : Str)

/-- One call; `none` if it crashes. -/
def mountStep (t : Traced) : MountOp → Option Traced
  | .mount path fstype =>
    (vfsMount t.vfs path fstype).map fun out =>
      ⟨out.2, if out.1 = 0 then t.made ++ [⟨path, t.vfs⟩] else t.made⟩
  | .unmount path =>
    let out := vfsUnmount t.vfs path
    some ⟨out.2,
      if out.1 = 0 then t.made.eraseIdx ((findMount t.vfs path).getD 0) else t.made⟩
  | .mkdir path => (vfsMkdir t.vfs path).map fun out => ⟨out.2, t.made⟩
  | .create path => (vfsCreate t.vfs path).map fun out => ⟨out.2, t.made⟩

/-- `p` is `path` or lies below it. -/
def AtOrBelow (path p : Str) : Prop :=
  p = path ∨ ∃ rest, p = (if path = [slash] then [] else path) ++ slash :: rest

/-- What removing entry `i`, which names `path`, from the mount table should achieve in
the state `s'` after it. -/
structure Restored (t : Traced) (path : Str) (i : ℕ) (s' : Vfs) : Prop where
  own : ∀ m, t.made[i]? = some m → ∀ p, AtOrBelow m.path p →
    vfsResolvePath s' p = vfsResolvePath m.before p
  others : ∀ j m, j ≠ i → t.made[j]? = some m → ∀ p, AtOrBelow m.path p →
    vfsResolvePath s' p = vfsResolvePath t.vfs p
  gone : ∀ k < s'.gMountCount, (s'.gMounts k).path ≠ path

/-- A call of `vfs_unmount` that returns 0 restores what was there before its mount. -/
def UnmountRestores (t : Traced) (op : MountOp) : Prop :=
  ∀ path i, op = .unmount path → (vfsUnmount t.vfs path).1 = 0 → findMount t.vfs path = some i →
    Restored t path i (vfsUnmount t.vfs path).2

/-- No call of `vfs_unmount` returns 0. -/
def UnmountFails (t : Traced) (op : MountOp) : Prop :=
  ∀ path, op = .unmount path → (vfsUnmount t.vfs path).1 ≠ 0

/-- Mounts are made at distinct directories: the root only while nothing is mounted
there, and elsewhere not over a root directory that is itself mounted. -/
def NewPlace (t : Traced) (op : MountOp) : Prop :=
  ∀ path fstype, op = .mount path fstype →
    (path = [slash] → ∀ i < t.vfs.gMountCount, (t.vfs.gMounts i).path ≠ [slash]) ∧
      (path ≠ [slash] → ∀ d, vfsResolvePath t.vfs path = .node d →
        ∀ i < t.vfs.gMountCount, (t.vfs.gMounts i).root ≠ some d)

/-! ## The invariant up to the first unmount -/

/-- The node carries the mark of a mount point. -/
def IsMarked (s : Vfs) (d : ℕ) : Prop :=
  (s.ramfsNodePool d).flags &&& vfsMountpoint ≠ 0 ∧ (s.ramfsNodePool d).mount ≠ none

/-- The trace a mount leaves behind: `g_vfs_root`, or a marked directory that is not
the root of any mount. -/
def LeavesMark (s : Vfs) (m : Made) : Prop :=
  (m.path = [slash] ∧ m.before.gVfsRoot = none ∧ s.gVfsRoot ≠ none) ∨
    ∃ d, vfsResolvePath m.before m.path = .node d ∧ d < s.ramfsNodeCount ∧ IsMarked s d ∧
      ∀ i < s.gMountCount, (s.gMounts i).root ≠ some d

structure MountInv (t : Traced) : Prop where
  shaped : Shaped t.vfs
  length : t.made.length = t.vfs.gMountCount
  root_entry : ∀ r, t.vfs.gVfsRoot = some r →
    ∃ i < t.vfs.gMountCount, (t.vfs.gMounts i).root = some r ∧ (t.vfs.gMounts i).path = [slash]
  marks : ∀ m ∈ t.made, LeavesMark t.vfs m

/-- Marks stay as long as nodes keep theirs and no old node becomes a mount's root. -/
theorem LeavesMark.mono {s s' : Vfs} {m : Made} (h : LeavesMark s m)
    (hcount : s.ramfsNodeCount ≤ s'.ramfsNodeCount)
    (hroot : s.gVfsRoot ≠ none → s'.gVfsRoot ≠ none)
    (hmark : ∀ d < s.ramfsNodeCount, IsMarked s d → IsMarked s' d)
    (hentry : ∀ i < s'.gMountCount, ∀ d < s.ramfsNodeCount, (s'.gMounts i).root = some d →
      ∃ j < s.gMountCount, (s.gMounts j).root = some d) : LeavesMark s' m := by
  rcases h with ⟨hpath, hbefore, hr⟩ | ⟨d, hres, hd, hm, hfree⟩
  · exact Or.inl ⟨hpath, hbefore, hroot hr⟩
  · refine Or.inr ⟨d, hres, hd.trans_le hcount, hmark d hd hm, fun i hi heq => ?_⟩
    obtain ⟨j, hj, hrootj⟩ := hentry i hi d hd heq
    exact hfree j hj hrootj

/-- Creating a file or a directory keeps the invariant. -/
theorem MountInv.created {t : Traced} (h : MountInv t) {parent : ℕ} {name : Str}
    {flags : UInt32} {s' : Vfs} (hc : Created t.vfs parent name flags s') :
    MountInv ⟨s', t.made⟩ := by
  have hshaped := h.shaped.created hc
  obtain ⟨-, -, -, -, -, -⟩ := hc
  refine ⟨hshaped, h.length, h.root_entry, fun m hm => ?_⟩
  refine (h.marks m hm).mono (Nat.le_succ _) id (fun d hd hmark => ?_)
    fun i hi d _ heq => ⟨i, hi, heq⟩
  have hold : (addNode t.vfs (newNode t.vfs name flags)).ramfsNodePool d =
      t.vfs.ramfsNodePool d := addNode_old _ _ (Nat.ne_of_lt hd)
  simp only [IsMarked, enterChild, Vfs.setDir, hold]
  exact hmark

theorem marked_flags (flags : UInt32) :
    (flags ||| vfsMountpoint) &&& vfsMountpoint ≠ 0 := by
  intro h
  have hbit := congrArg (fun x : UInt32 => x.toNat.testBit 6) h
  simp only [UInt32.toNat_and, UInt32.toNat_or, Nat.testBit_and, Nat.testBit_or] at hbit
  rw [show vfsMountpoint.toNat.testBit 6 = true by decide] at hbit
  simp at hbit

/-- Making a node a mount point keeps the marks there are. -/
theorem IsMarked.linkMount {s : Vfs} {d : ℕ} (h : IsMarked s d) (node mp : ℕ) :
    IsMarked (linkMount s node mp) d := by
  by_cases hd : d = node
  · subst hd
    simp only [IsMarked, linkMount_self]
    exact ⟨marked_flags _, by simp⟩
  · simpa only [IsMarked, linkMount_of_ne s mp hd] using h

theorem isMarked_linkMount (s : Vfs) (node mp : ℕ) : IsMarked (linkMount s node mp) node := by
  simp only [IsMarked, linkMount_self]
  exact ⟨marked_flags _, by simp⟩

/-- A successful mount, or one that fails after it has filled in an entry. -/
theorem MountInv.mounted {t : Traced} (h : MountInv t) {path fstype : Str} {r : ℤ} {s' : Vfs}
    (hnew : NewPlace t (.mount path fstype)) (hm : Mounted t.vfs path r s') :
    MountInv ⟨s', if r = 0 then t.made ++ [⟨path, t.vfs⟩] else t.made⟩ := by
  have hshaped := h.shaped.mounted hm
  obtain ⟨hroot, hdir⟩ := hnew path fstype rfl
  -- what every outcome that fills in the next entry has in common
  have hentry (i : ℕ) (hi : i < t.vfs.gMountCount) :
      (allocRoot t.vfs path).gMounts i = t.vfs.gMounts i := setMount_of_ne _ _ (Nat.ne_of_lt hi)
  have hnewEntry : (allocRoot t.vfs path).gMounts t.vfs.gMountCount =
      ⟨path.take 255, some t.vfs.ramfsNodeCount, 0⟩ := by
    simp [allocRoot, Vfs.setMount]
  have hmark (d : ℕ) (hd : d < t.vfs.ramfsNodeCount) (hm : IsMarked t.vfs d) :
      IsMarked (allocRoot t.vfs path) d := by
    have hold : (allocRoot t.vfs path).ramfsNodePool d = t.vfs.ramfsNodePool d :=
      addNode_old _ _ (Nat.ne_of_lt hd)
    rw [IsMarked, hold]
    exact hm
  have hroots (i : ℕ) (hi : i < t.vfs.gMountCount + 1) (d : ℕ) (hd : d < t.vfs.ramfsNodeCount)
      (heq : ((allocRoot t.vfs path).gMounts i).root = some d) :
      ∃ j < t.vfs.gMountCount, (t.vfs.gMounts j).root = some d := by
    rcases Nat.lt_succ_iff_lt_or_eq.mp hi with hlt | rfl
    · rw [hentry i hlt] at heq
      exact ⟨i, hlt, heq⟩
    · rw [hnewEntry] at heq
      exact absurd (Option.some.inj heq) (Nat.ne_of_gt hd)
  cases hm with
  | refused => exact h
  | noRoot =>
    have hentry' (i : ℕ) (hi : i < t.vfs.gMountCount) :
        (t.vfs.setMount t.vfs.gMountCount ⟨path.take 255, none, 0⟩).gMounts i =
          t.vfs.gMounts i := setMount_of_ne _ _ (Nat.ne_of_lt hi)
    refine ⟨hshaped, h.length, fun r hr => ?_, fun m hm => ?_⟩
    · obtain ⟨i, hi, heq⟩ := h.root_entry r hr
      exact ⟨i, hi, by rwa [hentry' i hi]⟩
    · refine (h.marks m hm).mono le_rfl id (fun d _ hmark => hmark) fun i hi d _ heq => ?_
      rw [hentry' i hi] at heq
      exact ⟨i, hi, heq⟩
  | noPlace =>
    refine ⟨hshaped, h.length, fun r hr => ?_, fun m hm => ?_⟩
    · obtain ⟨i, hi, heq⟩ := h.root_entry r hr
      exact ⟨i, hi, by rwa [hentry i hi]⟩
    · exact (h.marks m hm).mono (Nat.le_succ _) id hmark fun i hi d hd heq =>
        hroots i (Nat.lt_succ_of_lt hi) d hd heq
  | root _ _ hpath =>
    subst hpath
    have hnone : t.vfs.gVfsRoot = none := by
      by_contra hne
      obtain ⟨r, hr⟩ := Option.ne_none_iff_exists'.mp hne
      obtain ⟨i, hi, -, heq⟩ := h.root_entry r hr
      exact hroot rfl i hi heq
    refine ⟨hshaped, by simp [h.length], fun r hr => ?_, fun m hm => ?_⟩
    · refine ⟨t.vfs.gMountCount, Nat.lt_succ_self _, ?_⟩
      change ((allocRoot t.vfs [slash]).gMounts t.vfs.gMountCount).root = some r ∧
        ((allocRoot t.vfs [slash]).gMounts t.vfs.gMountCount).path = [slash]
      rw [hnewEntry]
      exact ⟨hr, rfl⟩
    · rcases List.mem_append.mp hm with hm | hm
      · refine (h.marks m hm).mono (Nat.le_succ _) (fun _ => by simp [linkMount, Vfs.setNode])
          (fun d hd hmk => ?_) hroots
        exact (hmark d hd hmk).linkMount _ _
      · obtain rfl := List.mem_singleton.mp hm
        exact Or.inl ⟨rfl, hnone, by simp [linkMount, Vfs.setNode]⟩
  | @dir d₀ _ _ hpath hres _ =>
    rw [h.shaped.resolvePath_allocRoot] at hres
    have hd₀ := h.shaped.resolvePath_lt hres
    refine ⟨hshaped, by simp [h.length], fun r hr => ?_, fun m hm => ?_⟩
    · obtain ⟨i, hi, heq⟩ := h.root_entry r hr
      refine ⟨i, Nat.lt_succ_of_lt hi, ?_⟩
      change ((allocRoot t.vfs path).gMounts i).root = some r ∧
        ((allocRoot t.vfs path).gMounts i).path = [slash]
      rwa [hentry i hi]
    · rcases List.mem_append.mp hm with hm | hm
      · refine (h.marks m hm).mono (Nat.le_succ _) id (fun d hd hmk => ?_) hroots
        exact (hmark d hd hmk).linkMount _ _
      · obtain rfl := List.mem_singleton.mp hm
        refine Or.inr ⟨d₀, hres, hd₀.trans (Nat.lt_succ_self _), isMarked_linkMount _ _ _,
          fun i hi heq => ?_⟩
        obtain ⟨j, hj, hrootj⟩ := hroots i hi d₀ hd₀ heq
        exact hdir hpath d₀ hres j hj hrootj

/-! ## The first unmount -/

/-- What a successful unmount does. -/
theorem vfsUnmount_ok {s : Vfs} {path : Str} {i : ℕ} (hfind : findMount s path = some i)
    (hok : (vfsUnmount s path).1 = 0) :
    i < s.gMountCount ∧ (vfsUnmount s path).2 = { s with
      gMounts := shiftMounts s.gMounts i s.gMountCount
      gMountCount := s.gMountCount - 1 } := by
  constructor
  · obtain ⟨j, -, hj, hpath, -⟩ := firstSome_eq_some.mp hfind
    split at hpath
    · cases hpath
      omega
    · cases hpath
  · by_cases hbusy : (s.gMounts i).refcount > 0
    · simp [vfsUnmount, hfind, hbusy] at hok
    · simp [vfsUnmount, hfind, hbusy]

/-- Shifting the table down brings no new roots. -/
theorem shiftMounts_root (mounts : ℕ → Mount) (i : ℕ) {count k : ℕ} (hk : k < count) :
    ∃ j < count, shiftMounts mounts i count k = mounts j := by
  by_cases h : i ≤ k ∧ k < count - 1
  · exact ⟨k + 1, by omega, if_pos h⟩
  · exact ⟨k, hk, if_neg h⟩

/-- After a successful unmount its path does not resolve to what it did before the mount:
the root of the file system stays, and the directory keeps its mark. -/
theorem not_restored {t : Traced} (h : MountInv t) {path : Str} {i : ℕ}
    (hfind : findMount t.vfs path = some i) (hok : (vfsUnmount t.vfs path).1 = 0) :
    ¬ Restored t path i (vfsUnmount t.vfs path).2 := by
  intro hrest
  obtain ⟨hi, hs'⟩ := vfsUnmount_ok hfind hok
  have hroot' : (vfsUnmount t.vfs path).2.gVfsRoot = t.vfs.gVfsRoot := by rw [hs']
  have hpool : (vfsUnmount t.vfs path).2.ramfsNodePool = t.vfs.ramfsNodePool := by rw [hs']
  have hmounts : (vfsUnmount t.vfs path).2.gMounts =
      shiftMounts t.vfs.gMounts i t.vfs.gMountCount := by rw [hs']
  generalize (vfsUnmount t.vfs path).2 = s' at hrest hroot' hpool hmounts
  have hilen : i < t.made.length := by rwa [h.length]
  have hown := hrest.own t.made[i] (List.getElem?_eq_getElem hilen) t.made[i].path (Or.inl rfl)
  rcases h.marks t.made[i] (List.getElem_mem hilen) with
    ⟨hslash, hbefore, hroot⟩ | ⟨d, hres, hd, hmark, hfree⟩
  · obtain ⟨r, hr⟩ := Option.ne_none_iff_exists'.mp hroot
    rw [vfsResolvePath_of_no_root hbefore, hslash, vfsResolvePath_slash (hroot'.trans hr)] at hown
    cases hown
  · rw [hres] at hown
    rcases vfsResolvePath_node hown with hroot | ⟨n, hfollow⟩
    · obtain ⟨k, hk, heq, -⟩ := h.root_entry d (hroot'.symm.trans hroot)
      exact hfree k hk heq
    · rcases followMount_cases s' n with ⟨hself, hplain⟩ | ⟨k, hk, heq⟩
      · rw [hself] at hfollow
        obtain rfl := Option.some.inj hfollow
        rw [hpool] at hplain
        exact hplain hmark
      · rw [hpool] at hk
        obtain ⟨j, hj, hshift⟩ := shiftMounts_root t.vfs.gMounts i (h.shaped.link_lt n k hk)
        rw [hfollow, hmounts, hshift] at heq
        exact hfree j hj heq.symm

/-- A step whose unmount, if it is one, fails keeps the invariant. -/
theorem mountStep_inv {t t' : Traced} {op : MountOp} (h : MountInv t) (hnew : NewPlace t op)
    (hfails : UnmountFails t op) (hstep : mountStep t op = some t') : MountInv t' := by
  cases op with
  | mount path fstype =>
    obtain ⟨⟨r, s'⟩, hm, rfl⟩ := Option.map_eq_some_iff.mp hstep
    exact h.mounted hnew (vfsMount_cases hm)
  | unmount path =>
    have hr := hfails path rfl
    have hsame : (vfsUnmount t.vfs path).2 = t.vfs := by
      unfold vfsUnmount at hr ⊢
      cases hfind : findMount t.vfs path with
      | none => rfl
      | some i =>
        by_cases hbusy : (t.vfs.gMounts i).refcount > 0
        · simp [hbusy]
        · simp [hfind, hbusy] at hr
    simp only [mountStep, Option.some.injEq, if_neg hr, hsame] at hstep
    rwa [← hstep]
  | mkdir path =>
    obtain ⟨⟨r, s'⟩, hm, rfl⟩ := Option.map_eq_some_iff.mp hstep
    rcases createAt_cases (fun _ _ _ => rfl) hm with ⟨-, rfl⟩ | ⟨-, parent, -, hc⟩
    · exact h
    · exact h.created hc
  | create path =>
    obtain ⟨⟨r, s'⟩, hm, rfl⟩ := Option.map_eq_some_iff.mp hstep
    rcases createAt_cases (fun _ _ _ => rfl) hm with ⟨-, rfl⟩ | ⟨-, parent, -, hc⟩
    · exact h
    · exact h.created hc

/-- From any state before the first unmount: a step restores what it unmounts exactly when
it unmounts nothing. -/
theorem unmountRestores_iff {t : Traced} (h : MountInv t) (op : MountOp) :
    UnmountRestores t op ↔ UnmountFails t op := by
  constructor
  · intro hrest path hop hok
    cases hfind : findMount t.vfs path with
    | none => simp [vfsUnmount, hfind] at hok
    | some i => exact not_restored h hfind hok (hrest path i hop hok hfind)
  · intro hfails path i hop hok _
    exact absurd hok (hfails path hop)

theorem mountInv_init (frames : UInt64 → ℕ → UInt8) : MountInv ⟨vfsInit frames, []⟩ where
  shaped := shaped_init frames
  length := rfl
  root_entry _ h := by cases h
  marks _ h := absurd h List.not_mem_nil

/-- In a run of mounts at distinct directories, every successful unmount restores what
was there before its mount only if no unmount succeeds at all. -/
theorem unmount_restores_iff (frames : UInt64 → ℕ → UInt8) (ops : List MountOp)
    (hnew : Always mountStep NewPlace ⟨vfsInit frames, []⟩ ops) :
    Always mountStep UnmountRestores ⟨vfsInit frames, []⟩ ops ↔
      Always mountStep UnmountFails ⟨vfsInit frames, []⟩ ops :=
  always_iff (fun _ op h _ => unmountRestores_iff h op)
    (fun _ _ _ h hD hQ hs => mountStep_inv h hD hQ hs) (mountInv_init frames) hnew

/-! ## Mounting at `/a` and unmounting again -/

def mountOnce : List MountOp :=
  [.mount (str "/") (str "ramfs"), .mkdir (str "/a"), .mount (str "/a") (str "ramfs"),
    .unmount (str "/a")]

/-- The states of the run of `mountOnce`. -/
def once₀ : Traced := ⟨vfsInit fun _ _ => 0, []⟩
def once₁ : Traced := (mountStep once₀ (.mount (str "/") (str "ramfs"))).get (by decide +kernel)
def once₂ : Traced := (mountStep once₁ (.mkdir (str "/a"))).get (by decide +kernel)
def once₃ : Traced := (mountStep once₂ (.mount (str "/a") (str "ramfs"))).get (by decide +kernel)

theorem once_step₁ : mountStep once₀ (.mount (str "/") (str "ramfs")) = some once₁ :=
  (Option.some_get _).symm

theorem once_step₂ : mountStep once₁ (.mkdir (str "/a")) = some once₂ := (Option.some_get _).symm

theorem once_step₃ : mountStep once₂ (.mount (str "/a") (str "ramfs")) = some once₃ :=
  (Option.some_get _).symm

theorem mountOnce_newPlace : Always mountStep NewPlace once₀ mountOnce := by
  refine .cons once_step₁ ?_ (.cons once_step₂ ?_ (.cons once_step₃ ?_ ⟨?_, fun _ _ => trivial⟩))
  · exact fun _ _ _ => ⟨fun _ i hi => absurd hi (Nat.not_lt_zero i),
      fun _ _ _ i hi => absurd hi (Nat.not_lt_zero i)⟩
  · exact fun _ _ h => by cases h
  · rintro path fstype h
    cases h
    refine ⟨fun h => absurd h (by decide), fun _ d hd i hi => ?_⟩
    have hres : vfsResolvePath once₂.vfs (str "/a") = .node 1 := by decide +kernel
    have hcount : once₂.vfs.gMountCount = 1 := by decide +kernel
    have hroot : (once₂.vfs.gMounts 0).root = some 0 := by decide +kernel
    obtain rfl : i = 0 := by omega
    rw [hres] at hd
    obtain rfl := Resolved.node.inj hd
    rw [hroot]
    decide
  · exact fun _ _ h => by cases h

theorem mountOnce_unmounts : ¬ Always mountStep UnmountFails once₀ mountOnce := by
  rintro ⟨-, h⟩
  obtain ⟨-, h⟩ := h _ once_step₁
  obtain ⟨-, h⟩ := h _ once_step₂
  obtain ⟨h, -⟩ := h _ once_step₃
  exact h (str "/a") rfl (by decide +kernel)

/-- The unmount of `/a` does not give back the directory that was mounted over. -/
theorem unmount_restores_iff_mountOnce :
    ¬ Always mountStep UnmountRestores once₀ mountOnce := fun h =>
  mountOnce_unmounts ((unmount_restores_iff (fun _ _ => 0) mountOnce mountOnce_newPlace).mp h)

theorem unmount_keeps_mount :
    ¬ ∀ (frames : UInt64 → ℕ → UInt8) (ops : List MountOp),
      Always mountStep NewPlace ⟨vfsInit frames, []⟩ ops →
        Always mountStep UnmountRestores ⟨vfsInit frames, []⟩ ops := by
  intro hall
  obtain ⟨-, h⟩ := hall (fun _ _ => 0) mountOnce mountOnce_newPlace
  obtain ⟨-, h⟩ := h _ once_step₁
  obtain ⟨-, h⟩ := h _ once_step₂
  obtain ⟨h, -⟩ := h _ once_step₃
  have hrest := h (str "/a") 1 rfl (by decide +kernel) (by decide +kernel)
  have hnow : vfsResolvePath (vfsUnmount once₃.vfs (str "/a")).2 (str "/a") = .node 2 := by
    decide +kernel
  have hthen : ∃ m, once₃.made[1]? = some m ∧ m.path = str "/a" ∧
      vfsResolvePath m.before (str "/a") = .node 1 :=
    ⟨⟨str "/a", once₂.vfs⟩, rfl, rfl, by decide +kernel⟩
  obtain ⟨m, hm, hpath, hbefore⟩ := hthen
  have hown := hrest.own m hm (str "/a") (Or.inl hpath.symm)
  rw [hnow, hbefore] at hown
  cases hown

end Rhoudveine.Fs
