import Rhoudveine.Fs.Refinement
import Rhoudveine.Fs.Catalogue
import Rhoudveine.Fs.Whole

/-!
# Files in a growing tree

The abstract files stay what they are when a node is added, and a write to the first page takes one
page at most.
-/

namespace Rhoudveine.Fs

variable {answers : ℕ → UInt64} {s s' : Vfs}

/-! ## A new node -/

/-- The owner of a block is a file of ramfs. -/
theorem Agrees.isFile {w : Watched} (h : Agrees answers w) {n k : ℕ} (hb : FileBlock w.vfs n k) :
    IsFile w.vfs n := by
  obtain ⟨m, hm, hblock⟩ := h.owner k (h.blocks.block_lt n k hb)
  rwa [h.blocks.block_inj n m k hb hblock]

section created

variable {f : Files} {parent : ℕ} {name : Str} {flags : UInt32}

/-- Only the new node is another one. -/
structure OneNode (s : Vfs) (node : Node) (s' : Vfs) : Prop where
  new : s'.ramfsNodePool s.ramfsNodeCount = node
  old : ∀ n ≠ s.ramfsNodeCount, s'.ramfsNodePool n = s.ramfsNodePool n
  files : s'.fileDataPool = s.fileDataPool ∧ s'.fileDataCount = s.fileDataCount
  frames : s'.frames = s.frames ∧ s'.allocs = s.allocs
  fds : s'.gFds = s.gFds

theorem OneTree.Grown.oneNode (h : OneTree.Grown s parent name flags s') :
    OneNode s (newNode s name flags) s' :=
  ⟨h.new, h.old, ⟨h.files.1, h.files.2.1⟩, ⟨h.files.2.2.1, h.files.2.2.2.1⟩, h.files.2.2.2.2⟩

theorem isDir_newNode_iff : (newNode s name flags).isDir ↔ flags &&& vfsDirectory ≠ 0 := Iff.rfl

variable (h : Agrees answers ⟨s, f⟩) (hone : OneNode s (newNode s name flags) s')
  (hfree : (s.ramfsNodePool s.ramfsNodeCount).ops = none)
include h hone hfree

/-- No block belongs to the new node, before or after. -/
theorem OneNode.fileBlock_iff (n k : ℕ) : FileBlock s' n k ↔ FileBlock s n k := by
  by_cases hn : n = s.ramfsNodeCount
  · subst hn
    constructor
    · intro hb
      have hdata := hb.2
      rw [hone.new] at hdata
      simp only [newNode] at hdata
      split at hdata <;> cases hdata
    · intro hb
      have hops := (h.isFile hb).2
      rw [hfree] at hops
      cases hops
  · rw [FileBlock, FileBlock, hone.old n hn]

theorem OneNode.blocksInv : BlocksInv answers s' := by
  have hblock := hone.fileBlock_iff h hfree
  have hsound := h.blocks
  have hnew (hdir : ¬ (s'.ramfsNodePool s.ramfsNodeCount).isDir) :
      (s'.ramfsNodePool s.ramfsNodeCount).fsData = .null := by
    rw [hone.new, isDir_newNode_iff] at hdir
    rw [hone.new]
    exact if_neg hdir
  refine
    { pages_le := fun n k hb => ?_
      isSome_iff := fun n k i hb => ?_
      distinct := fun n k i n' k' i' q hb hb' => ?_
      kept := fun j hj hne => ?_
      size_le := fun n k hb => ?_
      block_lt := fun n k hb => ?_
      block_inj := fun n n' k hb hb' => ?_
      taken := fun n k i q hb => ?_
      no_block := fun n hdir hdata => ?_
      file_data := fun n d hdir => ?_ }
  · rw [hone.files.1]
    exact hsound.pages_le n k ((hblock n k).mp hb)
  · rw [hone.files.1]
    exact hsound.isSome_iff n k i ((hblock n k).mp hb)
  · rw [hone.files.1]
    exact hsound.distinct n k i n' k' i' q ((hblock n k).mp hb) ((hblock n' k').mp hb')
  · rw [hone.frames.2] at hj
    obtain ⟨n, k, i, hb, hi, hpage⟩ := hsound.kept j hj hne
    refine ⟨n, k, i, (hblock n k).mpr hb, hi, ?_⟩
    rw [hone.files.1]
    exact hpage
  · have hold := (hblock n k).mp hb
    have hn : n ≠ s.ramfsNodeCount := by
      rintro rfl
      have hops := (h.isFile hold).2
      rw [hfree] at hops
      cases hops
    rw [hone.files.1, hone.old n hn]
    exact hsound.size_le n k hold
  · rw [hone.files.2]
    exact hsound.block_lt n k ((hblock n k).mp hb)
  · exact hsound.block_inj n n' k ((hblock n k).mp hb) ((hblock n' k).mp hb')
  · rw [hone.files.1, hone.frames.2]
    exact hsound.taken n k i q ((hblock n k).mp hb)
  · by_cases hn : n = s.ramfsNodeCount
    · subst hn
      rw [hone.new]
      rfl
    · rw [hone.old n hn] at hdir hdata ⊢
      exact hsound.no_block n hdir hdata
  · by_cases hn : n = s.ramfsNodeCount
    · subst hn
      rw [hnew hdir]
      exact fun heq => by cases heq
    · rw [hone.old n hn] at hdir ⊢
      exact hsound.file_data n d hdir

/-- The new node is an empty file or a directory. -/
theorem Agrees.created (hroom : s.ramfsNodeCount < maxRamfsNodes)
    (hempty : f.contents s.ramfsNodeCount = .empty) : Agrees answers ⟨s', f⟩ := by
  have hblock := hone.fileBlock_iff h hfree
  have hfile {n : ℕ} (hn : n ≠ s.ramfsNodeCount) : IsFile s' n ↔ IsFile s n := by
    rw [IsFile, IsFile, hone.old n hn]
  have hne {n : ℕ} (hn : IsFile s n) : n ≠ s.ramfsNodeCount := by
    rintro rfl
    have hops := hn.2
    rw [hfree] at hops
    cases hops
  have husable {file : FileDescriptor} (hu : Usable s file) : Usable s' file := by
    obtain ⟨n, hn, hf⟩ := hu.node
    exact ⟨hu.refcount, hu.offset_le, n, hn, (hfile (hne hf)).mpr hf⟩
  refine
    { blocks := hone.blocksInv h hfree
      file_lt := fun n hn => ?_
      owner := fun k hk => ?_
      fds := h.fds.trans (descriptors_congr hone.fds).symm
      usable := fun fd hfd => ?_
      size := fun n hn => ?_
      bytes := fun n p b hb => ?_ }
  · by_cases hnew : n = s.ramfsNodeCount
    · exact hnew ▸ hroom
    · exact h.file_lt n ((hfile hnew).mp hn)
  · dsimp only at hk
    rw [hone.files.2] at hk
    obtain ⟨n, hn, hb⟩ := h.owner k hk
    exact ⟨n, (hfile (hne hn)).mpr hn, (hblock n k).mpr hb⟩
  · dsimp only at hfd ⊢
    rw [hone.fds] at hfd ⊢
    exact husable (h.usable fd hfd)
  · by_cases hnew : n = s.ramfsNodeCount
    · subst hnew
      dsimp only
      rw [hone.new, hempty]
      rfl
    · dsimp only
      rw [hone.old n hnew]
      exact h.size n ((hfile hnew).mp hn)
  · obtain ⟨k, hk, hlt, hview⟩ := h.bytes n p b hb
    have hn := hne (h.isFile hk)
    refine ⟨k, (hblock n k).mpr hk, ?_, ?_⟩
    · dsimp only
      rw [hone.old n hn]
      exact hlt
    · dsimp only
      rw [hone.files.1, hone.frames.1]
      exact hview

end created

/-! ## The pages of a short write -/

theorem allocPages_first (answers : ℕ → UInt64) (rounds : ℕ) (first : UInt32) (file : FileData)
    (allocs : ℕ) : (allocPages answers 0 rounds first file allocs).2.2 ≤ allocs + 1 := by
  cases rounds with
  | zero => exact Nat.le_succ allocs
  | succ rounds =>
    rw [allocPages]
    split
    · rename_i hgo
      dsimp only
      split
      · exact le_rfl
      · -- the next page is behind the last one
        have hfirst : first = 0 := UInt32.le_zero_iff.mp hgo.1
        subst hfirst
        cases rounds with
        | zero => exact le_rfl
        | succ rounds =>
          rw [allocPages, if_neg (by decide)]
    · exact Nat.le_succ allocs

theorem writeFile_allocs {n k : ℕ} {offset : UInt64} {size : UInt32} {data : ℕ → UInt8} {r : ℤ}
    (hlast : endPage offset size = 0)
    (hw : writeFile answers s n k offset size data = some (r, s')) : s'.allocs ≤ s.allocs + 1 := by
  have hpages := allocPages_first answers maxFilePages (s.fileDataPool k).numPages
    (s.fileDataPool k) s.allocs
  unfold writeFile at hw
  rw [hlast] at hw
  dsimp only at hw
  generalize allocPages answers 0 maxFilePages (s.fileDataPool k).numPages (s.fileDataPool k)
    s.allocs = out at hw hpages
  obtain ⟨ok, file, allocs⟩ := out
  cases ok with
  | false =>
    obtain ⟨-, rfl⟩ := Prod.mk.inj (Option.some.inj hw)
    exact hpages
  | true =>
    dsimp only at hw
    unfold storeBytes at hw
    split at hw
    · cases hw
    · obtain ⟨-, rfl⟩ := Prod.mk.inj (Option.some.inj hw)
      rw [raiseSize_allocs]
      exact hpages

/-- A write that ends in the first page. -/
theorem ramfsWrite_allocs {node : Option ℕ} {offset : UInt64} {size : UInt32} {data : ℕ → UInt8}
    {r : ℤ} (hlast : endPage offset size = 0)
    (hw : ramfsWrite answers s node offset size data = some (r, s')) :
    s'.allocs ≤ s.allocs + 1 := by
  unfold ramfsWrite at hw
  cases node with
  | none =>
    obtain ⟨-, rfl⟩ := Prod.mk.inj (Option.some.inj hw)
    exact Nat.le_succ _
  | some n =>
    dsimp only at hw
    split at hw
    · obtain ⟨-, rfl⟩ := Prod.mk.inj (Option.some.inj hw)
      exact Nat.le_succ _
    · split at hw
      · obtain ⟨-, rfl⟩ := Prod.mk.inj (Option.some.inj hw)
        exact Nat.le_succ _
      · rename_i k t hensure
        have hallocs : t.allocs = s.allocs := by
          unfold ensureFileData at hensure
          split at hensure
          · cases hensure
            rfl
          · split at hensure
            · cases hensure
            · cases hensure
              rfl
        rw [← hallocs]
        exact writeFile_allocs hlast hw

theorem endPage_first {offset : UInt64} {size : UInt32} (hpos : 0 < size.toNat)
    (hfit : offset.toNat + size.toNat ≤ 4096) : endPage offset size = 0 := by
  apply UInt32.toNat_inj.mp
  rw [toNat_endPage, UInt32.toNat_zero]
  omega

end Rhoudveine.Fs
