import Rhoudveine.Fs.Paths

/-!
# Calls with `vfs_unmount`

After an unmount a node can keep the index of an entry that is gone or is now another mount's, so
lookups may lead back up.  What all states have that any calls reach.
-/

namespace Rhoudveine.Fs

variable {answers : ℕ → UInt64} {s s' : Vfs}

inductive AnyCall
  | call (c : VfsCall)
  | unmount (path : Str)

/-- A call that returns. -/
def anyStep (answers : ℕ → UInt64) (s : Vfs) (c : AnyCall) (s' : Vfs) : Prop :=
  match c with
  | .call c => vfsStep answers s c s'
  | .unmount path => s' = (vfsUnmount s path).2

/-- What no call breaks. -/
structure Grounded (s : Vfs) : Prop where
  forest : ∃ roots, Forest s roots
  ops : ∀ n < s.ramfsNodeCount, (s.ramfsNodePool n).ops = some .ramfs
  entry_lt : ∀ k r, (s.gMounts k).root = some r → r < s.ramfsNodeCount
  root_lt : ∀ r, s.gVfsRoot = some r → r < s.ramfsNodeCount
  name_le : ∀ d i, (s.ramfsDataPool d).children i ≠ none →
    ((s.ramfsDataPool d).childNames i).length ≤ 31

namespace Grounded

theorem init (frames : UInt64 → ℕ → UInt8) : Grounded (vfsInit frames) where
  forest := ⟨∅, Forest.init frames⟩
  ops _ hn := absurd hn (Nat.not_lt_zero _)
  entry_lt _ _ hk := by cases hk
  root_lt _ hr := by cases hr
  name_le _ _ _ := Nat.zero_le _

theorem sameTree (h : Grounded s) (ht : SameTree s s') : Grounded s' where
  forest := by
    obtain ⟨roots, hf⟩ := h.forest
    exact ⟨roots, hf.sameTree ht⟩
  ops n hn := by
    rw [ht.count] at hn
    rw [ht.ops]
    exact h.ops n hn
  entry_lt := by
    rw [ht.mounts.1, ht.count]
    exact h.entry_lt
  root_lt := by
    rw [ht.root, ht.count]
    exact h.root_lt
  name_le := by
    rw [ht.data]
    exact h.name_le

theorem created (h : Grounded s) {parent : ℕ} {name : Str} {flags : UInt32}
    (hc : Created s parent name flags s') : Grounded s' := by
  obtain ⟨roots, hf⟩ := h.forest
  have hforest : ∃ roots, Forest s' roots := ⟨roots, hf.created hc⟩
  have hops := hc.ops h.ops
  have hnames := hc.name_le hf h.name_le
  obtain ⟨-, -, -, -, -, -⟩ := hc
  exact {
    forest := hforest
    ops := hops
    entry_lt := fun k r hr => (h.entry_lt k r hr).trans (Nat.lt_succ_self _)
    root_lt := fun r hr => (h.root_lt r hr).trans (Nat.lt_succ_self _)
    name_le := hnames }

theorem setMount (h : Grounded s) (mp : Mount) {k : ℕ}
    (hmp : ∀ r, mp.root = some r → r < s.ramfsNodeCount) : Grounded (s.setMount k mp) where
  forest := by
    obtain ⟨roots, hf⟩ := h.forest
    exact ⟨roots, hf.congr rfl rfl rfl⟩
  ops := h.ops
  entry_lt j r hr := by
    by_cases hj : j = k
    · subst hj
      rw [Vfs.setMount] at hr
      dsimp only at hr
      rw [Function.update_self] at hr
      exact hmp r hr
    · rw [setMount_of_ne s mp hj] at hr
      exact h.entry_lt j r hr
  root_lt := h.root_lt
  name_le := h.name_le

theorem addRoot (h : Grounded s) (name : Str) :
    Grounded (addNode s (newNode s name vfsDirectory)) where
  forest := by
    obtain ⟨roots, hf⟩ := h.forest
    exact ⟨_, hf.addRoot name⟩
  ops := ops_addRoot name h.ops
  entry_lt k r hr := (h.entry_lt k r hr).trans (Nat.lt_succ_self _)
  root_lt r hr := (h.root_lt r hr).trans (Nat.lt_succ_self _)
  name_le := name_le_addRoot name h.name_le

theorem allocRoot (h : Grounded s) (path : Str) : Grounded (allocRoot s path) := by
  refine (h.addRoot [slash]).setMount _ fun r hr => ?_
  rw [← Option.some.inj hr]
  exact Nat.lt_succ_self _

theorem linkMount (h : Grounded s) (d mp count : ℕ) :
    Grounded { linkMount s d mp with gMountCount := count } where
  forest := by
    obtain ⟨roots, hf⟩ := h.forest
    exact ⟨roots, (hf.linkMount d mp).congr rfl rfl rfl⟩
  ops n hn := by
    by_cases hnd : n = d
    · subst hnd
      simp only [linkMount_self]
      exact h.ops n hn
    · simp only [linkMount_of_ne _ _ hnd]
      exact h.ops n hn
  entry_lt := h.entry_lt
  root_lt := h.root_lt
  name_le := h.name_le

theorem mounted (h : Grounded s) {path : Str} {r : ℤ} (hm : Mounted s path r s') :
    Grounded s' := by
  have halloc := h.allocRoot path
  cases hm with
  | refused => exact h
  | noRoot => exact h.setMount _ fun r hr => by cases hr
  | noPlace => exact halloc
  | root =>
    have hglobal : Grounded { Fs.allocRoot s path with gVfsRoot := some s.ramfsNodeCount } := by
      refine { halloc with forest := ?_, root_lt := fun r hr => ?_ }
      · obtain ⟨roots, hf⟩ := halloc.forest
        exact ⟨roots, hf.congr rfl rfl rfl⟩
      · rw [← Option.some.inj hr]
        exact Nat.lt_succ_self _
    exact hglobal.linkMount _ _ _
  | dir => exact halloc.linkMount _ _ _

/-- The entries that move down keep their roots. -/
theorem unmounted (h : Grounded s) (path : Str) : Grounded (vfsUnmount s path).2 := by
  unfold vfsUnmount
  split
  · exact h
  · rename_i i _
    split
    · exact h
    · exact {
        forest := by
          obtain ⟨roots, hf⟩ := h.forest
          exact ⟨roots, hf.congr rfl rfl rfl⟩
        ops := h.ops
        entry_lt := fun k r hr => by
          dsimp only [shiftMounts] at hr
          split at hr
          · exact h.entry_lt _ r hr
          · exact h.entry_lt k r hr
        root_lt := h.root_lt
        name_le := h.name_le }

theorem changed (h : Grounded s) (hc : Changed s s') : Grounded s' := by
  cases hc with
  | same ht => exact h.sameTree ht
  | created hc ht => exact (h.created hc).sameTree ht
  | mounted hm => exact h.mounted hm

theorem step (h : Grounded s) {c : AnyCall} (hstep : anyStep answers s c s') : Grounded s' := by
  cases c with
  | call c => exact h.changed (vfsStep_changed hstep)
  | unmount path =>
    obtain rfl : s' = (vfsUnmount s path).2 := hstep
    exact h.unmounted path

theorem run {frames : UInt64 → ℕ → UInt8} {calls : List AnyCall}
    (hrun : Run (anyStep answers) (vfsInit frames) calls s) : Grounded s :=
  hrun.invariant (fun _ _ _ h hstep => h.step hstep) (init frames)

theorem child_lt (h : Grounded s) {n c : ℕ} {x : Str} (hf : ramfsFinddir s n x = some c) :
    c < s.ramfsNodeCount := by
  obtain ⟨roots, hforest⟩ := h.forest
  obtain ⟨-, i, hi, -⟩ := hforest.finddir_slot hf
  exact (hforest.slot n i c hi).2.2.2.1

end Grounded

end Rhoudveine.Fs
