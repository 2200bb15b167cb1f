import Rhoudveine.Fs.Blocks

/-!
# Before the first open and the first write

The states that mounting and creating lead to: files are empty and have no data block,
and no descriptor is open.
-/

namespace Rhoudveine.Fs

/-- The calls that set up a file tree. -/
abbrev SetupRun (frames : UInt64 → ℕ → UInt8) : List MountOp → Traced → Prop :=
  Run (fun t op t' => mountStep t op = some t') ⟨vfsInit frames, []⟩

structure Untouched (s : Vfs) : Prop where
  data : ∀ n, ¬ (s.ramfsNodePool n).isDir → (s.ramfsNodePool n).fsData = .null
  size : ∀ n, ¬ (s.ramfsNodePool n).isDir → (s.ramfsNodePool n).size = 0
  allocs : s.allocs = 0
  fileDataCount : s.fileDataCount = 0
  closed : ∀ fd, (s.gFds fd).refcount = 0
  unused : ∀ n, s.ramfsNodeCount ≤ n → (s.ramfsNodePool n).ops = none
  count_le : s.ramfsNodeCount ≤ maxRamfsNodes

namespace Untouched

variable {s s' : Vfs}

theorem init (frames : UInt64 → ℕ → UInt8) : Untouched (vfsInit frames) :=
  ⟨fun _ _ => rfl, fun _ _ => rfl, rfl, rfl, fun _ => rfl, fun _ _ => rfl, Nat.zero_le _⟩

/-- The mounts and the directories do not matter. -/
theorem congr (h : Untouched s) (hpool : s'.ramfsNodePool = s.ramfsNodePool)
    (hcount : s'.ramfsNodeCount = s.ramfsNodeCount) (hallocs : s'.allocs = s.allocs)
    (hblocks : s'.fileDataCount = s.fileDataCount) (hfds : s'.gFds = s.gFds) : Untouched s' where
  data := by rw [hpool]; exact h.data
  size := by rw [hpool]; exact h.size
  allocs := hallocs.trans h.allocs
  fileDataCount := hblocks.trans h.fileDataCount
  closed := by rw [hfds]; exact h.closed
  unused := by rw [hpool, hcount]; exact h.unused
  count_le := hcount.trans_le h.count_le

theorem addNode (h : Untouched s) (hroom : s.ramfsNodeCount < maxRamfsNodes) (name : Str)
    (flags : UInt32) : Untouched (addNode s (newNode s name flags)) where
  data n hn := by
    by_cases hnew : n = s.ramfsNodeCount
    · subst hnew
      rw [addNode_new] at hn ⊢
      exact if_neg hn
    · rw [addNode_old _ _ hnew] at hn ⊢
      exact h.data n hn
  size n hn := by
    by_cases hnew : n = s.ramfsNodeCount
    · subst hnew
      rw [addNode_new]
      rfl
    · rw [addNode_old _ _ hnew] at hn ⊢
      exact h.size n hn
  allocs := h.allocs
  fileDataCount := h.fileDataCount
  closed := h.closed
  unused n hn := by
    rw [addNode_old _ _ (Nat.ne_of_gt hn)]
    exact h.unused n (Nat.le_of_lt hn)
  count_le := hroom

theorem linkMount (h : Untouched s) (node mp : ℕ) : Untouched (linkMount s node mp) where
  data n hn := by
    rw [isDir_linkMount] at hn
    by_cases hnode : n = node
    · subst hnode
      rw [linkMount_self]
      exact h.data n hn
    · rw [linkMount_of_ne _ _ hnode]
      exact h.data n hn
  size n hn := by
    rw [isDir_linkMount] at hn
    by_cases hnode : n = node
    · subst hnode
      rw [linkMount_self]
      exact h.size n hn
    · rw [linkMount_of_ne _ _ hnode]
      exact h.size n hn
  allocs := h.allocs
  fileDataCount := h.fileDataCount
  closed := h.closed
  unused n hn := by
    by_cases hnode : n = node
    · subst hnode
      rw [linkMount_self]
      exact h.unused n hn
    · rw [linkMount_of_ne _ _ hnode]
      exact h.unused n hn
  count_le := h.count_le

theorem created (h : Untouched s) {parent : ℕ} {name : Str} {flags : UInt32}
    (hc : Created s parent name flags s') : Untouched s' := by
  obtain ⟨-, -, -, -, -, hroom⟩ := hc
  exact (h.addNode hroom name flags).congr rfl rfl rfl rfl rfl

theorem mounted (h : Untouched s) {path : Str} {r : ℤ} (hm : Mounted s path r s') :
    Untouched s' := by
  have halloc (hroom : s.ramfsNodeCount < maxRamfsNodes) : Untouched (allocRoot s path) :=
    (h.addNode hroom [slash] vfsDirectory).congr rfl rfl rfl rfl rfl
  cases hm with
  | refused => exact h
  | noRoot => exact h.congr rfl rfl rfl rfl rfl
  | noPlace _ hroom => exact halloc hroom
  | root _ hroom =>
    have hroot : Untouched { allocRoot s path with gVfsRoot := some s.ramfsNodeCount } :=
      (halloc hroom).congr rfl rfl rfl rfl rfl
    exact (hroot.linkMount s.ramfsNodeCount s.gMountCount).congr rfl rfl rfl rfl rfl
  | @dir d _ hroom =>
    exact ((halloc hroom).linkMount d s.gMountCount).congr rfl rfl rfl rfl rfl

theorem step {t t' : Traced} {op : MountOp} (h : Untouched t.vfs)
    (hstep : mountStep t op = some t') : Untouched t'.vfs := by
  cases op with
  | mount path fstype =>
    obtain ⟨⟨r, s'⟩, hm, rfl⟩ := Option.map_eq_some_iff.mp hstep
    exact h.mounted (vfsMount_cases hm)
  | unmount path =>
    obtain rfl := Option.some.inj hstep
    dsimp only
    unfold vfsUnmount
    split
    · exact h
    · split
      · exact h
      · exact h.congr rfl rfl rfl rfl rfl
  | mkdir path =>
    obtain ⟨⟨r, s'⟩, hm, rfl⟩ := Option.map_eq_some_iff.mp hstep
    rcases createAt_cases (fun _ _ _ => rfl) hm with ⟨-, rfl⟩ | ⟨-, parent, -, hc⟩
    · exact h
    · exact h.created hc
  | create path =>
    obtain ⟨⟨r, s'⟩, hm, rfl⟩ := Option.map_eq_some_iff.mp hstep
    rcases createAt_cases (fun _ _ _ => rfl) hm with ⟨-, rfl⟩ | ⟨-, parent, -, hc⟩
    · exact h
    · exact h.created hc

theorem run {frames : UInt64 → ℕ → UInt8} {ops : List MountOp} {t : Traced}
    (hrun : SetupRun frames ops t) : Untouched t.vfs :=
  hrun.invariant (P := fun t => Untouched t.vfs) (fun _ _ _ h hstep => h.step hstep) (init frames)

theorem file_lt (h : Untouched s) (n : ℕ) (hn : IsFile s n) : n < maxRamfsNodes := by
  by_contra hge
  have hops := h.unused n (h.count_le.trans (Nat.le_of_not_lt hge))
  rw [hn.2] at hops
  cases hops

/-- Where there is no block, all blocks are sound. -/
theorem blocksInv (h : Untouched s) (answers : ℕ → UInt64) : BlocksInv answers s := by
  have hnone (n k : ℕ) (hb : FileBlock s n k) : False := by
    have := h.data n hb.1
    rw [hb.2] at this
    cases this
  exact {
    pages_le := fun n k hb => (hnone n k hb).elim
    isSome_iff := fun n k _ hb => (hnone n k hb).elim
    distinct := fun n k _ _ _ _ _ hb => (hnone n k hb).elim
    kept := fun j hj => by rw [h.allocs] at hj; exact absurd hj (Nat.not_lt_zero j)
    size_le := fun n k hb => (hnone n k hb).elim
    block_lt := fun n k hb => (hnone n k hb).elim
    block_inj := fun n _ k hb => (hnone n k hb).elim
    taken := fun n k _ _ hb => (hnone n k hb).elim
    no_block := fun n hn _ => h.size n hn
    file_data := fun n d hn hd => by rw [h.data n hn] at hd; cases hd }

end Untouched

/-! ## One file `/f` -/

/-- `free` frames from 4096 on, then none. -/
def lowFrames (free i : ℕ) : UInt64 := if i < free then UInt64.ofNat (4096 * (i + 1)) else 0

theorem lowFrames_ne_zero {free : ℕ} (hfree : free ≤ 2 ^ 32) (i : ℕ) :
    lowFrames free i ≠ 0 ↔ i < free := by
  unfold lowFrames
  split
  · rename_i hi
    apply iff_of_true _ hi
    intro heq
    have hnat := congrArg UInt64.toNat heq
    rw [UInt64.toNat_ofNat', UInt64.toNat_zero] at hnat
    omega
  · rename_i hi
    exact iff_of_false (fun hne => hne rfl) hi

theorem lowFrames_fresh {free : ℕ} (hfree : free ≤ 2 ^ 32) : FreshAnswers (lowFrames free) := by
  intro i j heq hne
  have hi := (lowFrames_ne_zero hfree i).mp hne
  have hj := (lowFrames_ne_zero hfree j).mp (heq ▸ hne)
  unfold lowFrames at heq
  rw [if_pos hi, if_pos hj] at heq
  have hnat := congrArg UInt64.toNat heq
  rw [UInt64.toNat_ofNat', UInt64.toNat_ofNat'] at hnat
  omega

/-- 1024 frames from 4096 on, then none. -/
def answers₁ (i : ℕ) : UInt64 := if i < 1024 then UInt64.ofNat (4096 * (i + 1)) else 0

theorem freshAnswers₁ : FreshAnswers answers₁ := by
  have hfresh : FreshAnswers (lowFrames 1024) := lowFrames_fresh (by norm_num)
  exact hfresh

def file₀ : Traced := ⟨vfsInit fun _ _ => 0, []⟩
def file₁ : Traced := (mountStep file₀ (.mount (str "/") (str "ramfs"))).get (by decide +kernel)
def file₂ : Traced := (mountStep file₁ (.create (str "/f"))).get (by decide +kernel)

theorem file_setup : SetupRun (fun _ _ => 0)
    [.mount (str "/") (str "ramfs"), .create (str "/f")] file₂ :=
  .cons (Option.some_get _).symm (.cons (Option.some_get _).symm (.nil _))

end Rhoudveine.Fs
