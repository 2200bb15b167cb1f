import Rhoudveine.Fs.Pages
import Rhoudveine.Fs.Mounts

/-!
# The data blocks of ramfs files

What a write may and may not do to the page pointers, the page count and the size of
a file, over any sequence of writes and any pattern of allocation failures.
-/

namespace Rhoudveine.Fs

/-- `pfa_alloc_low` never returns a frame that it has returned before: ramfs frees
none. -/
def FreshAnswers (answers : ℕ → UInt64) : Prop :=
  ∀ i j, answers i = answers j → answers i ≠ 0 → i = j

variable {answers : ℕ → UInt64}

/-! ## Sound blocks -/

/-- A node whose operations are those of ramfs and that is no directory. -/
def IsFile (s : Vfs) (n : ℕ) : Prop :=
  ¬ (s.ramfsNodePool n).isDir ∧ (s.ramfsNodePool n).ops = some .ramfs

/-- Node `n` is a file with data block `k`. -/
def FileBlock (s : Vfs) (n k : ℕ) : Prop :=
  ¬ (s.ramfsNodePool n).isDir ∧ (s.ramfsNodePool n).fsData = .file k

/-- The file data blocks as they should be. -/
structure BlocksSound (answers : ℕ → UInt64) (s : Vfs) : Prop where
  pages_le : ∀ n k, FileBlock s n k → (s.fileDataPool k).numPages.toNat ≤ maxFilePages
  isSome_iff : ∀ n k i, FileBlock s n k → i < maxFilePages →
    (((s.fileDataPool k).pages i).isSome ↔ i < (s.fileDataPool k).numPages.toNat)
  distinct : ∀ n k i n' k' i' f, FileBlock s n k → FileBlock s n' k' → i < maxFilePages →
    i' < maxFilePages → (s.fileDataPool k).pages i = some f →
    (s.fileDataPool k').pages i' = some f → n = n' ∧ i = i'
  kept : ∀ j < s.allocs, answers j ≠ 0 → ∃ n k i, FileBlock s n k ∧ i < maxFilePages ∧
    (s.fileDataPool k).pages i = some (answers j)
  size_le : ∀ n k, FileBlock s n k →
    (s.ramfsNodePool n).size.toNat ≤ (s.fileDataPool k).numPages.toNat * 4096

/-- With what makes it inductive: every block belongs to one file, every slot holds a
frame that was handed out, and a file without a block is empty. -/
structure BlocksInv (answers : ℕ → UInt64) (s : Vfs) : Prop extends BlocksSound answers s where
  block_lt : ∀ n k, FileBlock s n k → k < s.fileDataCount
  block_inj : ∀ n n' k, FileBlock s n k → FileBlock s n' k → n = n'
  taken : ∀ n k i f, FileBlock s n k → i < maxFilePages → (s.fileDataPool k).pages i = some f →
    f ≠ 0 ∧ ∃ j < s.allocs, answers j = f
  no_block : ∀ n, ¬ (s.ramfsNodePool n).isDir → (s.ramfsNodePool n).fsData = .null →
    (s.ramfsNodePool n).size = 0
  file_data : ∀ n d, ¬ (s.ramfsNodePool n).isDir → (s.ramfsNodePool n).fsData ≠ .dir d

theorem BlocksSound.backed {s : Vfs} (h : BlocksSound answers s) {n k : ℕ}
    (hb : FileBlock s n k) : (s.fileDataPool k).Backed :=
  ⟨h.pages_le n k hb, fun i hi =>
    (h.isSome_iff n k i hb (hi.trans_le (h.pages_le n k hb))).mpr hi⟩

/-! ## Steps that keep the blocks sound -/

/-- A failed allocation. -/
theorem BlocksInv.allocFails {s : Vfs} (h : BlocksInv answers s) (hzero : answers s.allocs = 0) :
    BlocksInv answers { s with allocs := s.allocs + 1 } where
  pages_le := h.pages_le
  isSome_iff := h.isSome_iff
  distinct := h.distinct
  kept j hj hne := by
    rcases Nat.lt_succ_iff_lt_or_eq.mp hj with hlt | rfl
    · exact h.kept j hlt hne
    · exact absurd hzero hne
  size_le := h.size_le
  block_lt := h.block_lt
  block_inj := h.block_inj
  taken n k i f hb hi hf := by
    obtain ⟨hne, j, hj, heq⟩ := h.taken n k i f hb hi hf
    exact ⟨hne, j, Nat.lt_succ_of_lt hj, heq⟩
  no_block := h.no_block
  file_data := h.file_data

/-- Storing bytes. -/
theorem BlocksInv.setFrames {s : Vfs} (h : BlocksInv answers s) (frames : UInt64 → ℕ → UInt8) :
    BlocksInv answers { s with frames := frames } :=
  { h with }

/-- Setting the size of a file to something its pages cover. -/
theorem BlocksInv.setSize {s : Vfs} (h : BlocksInv answers s) {n k : ℕ} (hb : FileBlock s n k)
    {size : UInt32} (hsize : size.toNat ≤ (s.fileDataPool k).numPages.toNat * 4096) :
    BlocksInv answers (s.setNode n { s.ramfsNodePool n with size := size }) := by
  have hnode (m : ℕ) (hm : m ≠ n) :
      (s.setNode n { s.ramfsNodePool n with size := size }).ramfsNodePool m =
        s.ramfsNodePool m := Function.update_of_ne hm ..
  have hself : (s.setNode n { s.ramfsNodePool n with size := size }).ramfsNodePool n =
      { s.ramfsNodePool n with size := size } := Function.update_self ..
  have hflags (m : ℕ) : ((s.setNode n { s.ramfsNodePool n with size := size }).ramfsNodePool m).isDir ↔
      (s.ramfsNodePool m).isDir := by
    by_cases hm : m = n
    · subst hm
      rw [hself]
      rfl
    · rw [hnode m hm]
  have hdata (m : ℕ) : ((s.setNode n { s.ramfsNodePool n with size := size }).ramfsNodePool m).fsData =
      (s.ramfsNodePool m).fsData := by
    by_cases hm : m = n
    · subst hm
      rw [hself]
    · rw [hnode m hm]
  -- who owns which block does not depend on the size, so only `size_le` is new
  have hblock (m j : ℕ) : FileBlock (s.setNode n { s.ramfsNodePool n with size := size }) m j ↔
      FileBlock s m j := by
    rw [FileBlock, FileBlock, hflags, hdata]
  refine ⟨⟨?_, ?_, ?_, ?_, ?_⟩, ?_, ?_, ?_, ?_, ?_⟩
  · exact fun m j hm => h.pages_le m j ((hblock m j).mp hm)
  · exact fun m j i hm => h.isSome_iff m j i ((hblock m j).mp hm)
  · exact fun m j i m' j' i' f hm hm' =>
      h.distinct m j i m' j' i' f ((hblock m j).mp hm) ((hblock m' j').mp hm')
  · intro j hj hne
    obtain ⟨m, l, i, hm, hi, hf⟩ := h.kept j hj hne
    exact ⟨m, l, i, (hblock m l).mpr hm, hi, hf⟩
  · intro m j hm'
    have hm := (hblock m j).mp hm'
    by_cases hmn : m = n
    · subst hmn
      obtain rfl : j = k := FsData.file.inj (hm.2.symm.trans hb.2)
      rw [hself]
      exact hsize
    · rw [hnode m hmn]
      exact h.size_le m j hm
  · exact fun m j hm => h.block_lt m j ((hblock m j).mp hm)
  · exact fun m m' j hm hm' => h.block_inj m m' j ((hblock m j).mp hm) ((hblock m' j).mp hm')
  · exact fun m j i f hm => h.taken m j i f ((hblock m j).mp hm)
  · intro m hdir hnull
    have hmn : m ≠ n := by
      rintro rfl
      rw [hdata, hb.2] at hnull
      cases hnull
    rw [hnode m hmn] at hdir hnull ⊢
    exact h.no_block m hdir hnull
  · intro m d hdir
    rw [hdata]
    exact h.file_data m d (mt (hflags m).mpr hdir)

/-- Allocating the pages from the page count of a block up to `last`, and counting them. -/
def extend (answers : ℕ → UInt64) (s : Vfs) (k : ℕ) (last : UInt32) : Vfs :=
  let file := s.fileDataPool k
  let count := last.toNat + 1 - file.numPages.toNat
  { s.setFile k { grow answers file file.numPages.toNat count s.allocs with
      numPages := if last ≥ file.numPages then last + 1 else file.numPages } with
    allocs := s.allocs + count }

section extend

variable {s : Vfs} {n k : ℕ} {last : UInt32}

theorem extend_other (answers : ℕ → UInt64) (last : UInt32) {j : ℕ} (hj : j ≠ k) :
    (extend answers s k last).fileDataPool j = s.fileDataPool j := Function.update_of_ne hj ..

theorem toNat_extend_numPages (answers : ℕ → UInt64) (hlast : last.toNat < maxFilePages) :
    ((extend answers s k last).fileDataPool k).numPages.toNat =
      max (s.fileDataPool k).numPages.toNat (last.toNat + 1) := by
  have hself : ((extend answers s k last).fileDataPool k).numPages =
      if last ≥ (s.fileDataPool k).numPages then last + 1 else (s.fileDataPool k).numPages := by
    simp only [extend, Vfs.setFile, Function.update_self]
  rw [hself]
  unfold maxFilePages at hlast
  by_cases hge : last ≥ (s.fileDataPool k).numPages
  · have := UInt32.le_iff_toNat_le.mp hge
    rw [if_pos hge, UInt32.toNat_add, UInt32.toNat_one]
    omega
  · have := mt UInt32.le_iff_toNat_le.mpr hge
    rw [if_neg hge]
    omega

theorem extend_pages (answers : ℕ → UInt64) (i : ℕ) :
    ((extend answers s k last).fileDataPool k).pages i =
      if (s.fileDataPool k).numPages.toNat ≤ i ∧ i ≤ last.toNat then
        some (answers (s.allocs + (i - (s.fileDataPool k).numPages.toNat)))
      else (s.fileDataPool k).pages i := by
  simp only [extend, Vfs.setFile, Function.update_self, grow]
  refine if_congr ?_ rfl rfl
  omega

/-- A successful extension of a file by pages below the limit. -/
theorem BlocksInv.extend (h : BlocksInv answers s) (hfresh : FreshAnswers answers)
    (hb : FileBlock s n k) (hlast : last.toNat < maxFilePages)
    (hok : ∀ i < last.toNat + 1 - (s.fileDataPool k).numPages.toNat, answers (s.allocs + i) ≠ 0) :
    BlocksInv answers (extend answers s k last) := by
  have hnum := toNat_extend_numPages (s := s) (k := k) answers hlast
  have hle := h.pages_le n k hb
  have hpage (i : ℕ) : ((Fs.extend answers s k last).fileDataPool k).pages i = _ :=
    extend_pages answers i
  have hallocs : (Fs.extend answers s k last).allocs =
      s.allocs + (last.toNat + 1 - (s.fileDataPool k).numPages.toNat) := rfl
  -- a slot holds an old frame of its block, or a new one of block `k`
  have hslot (m j i : ℕ) (f : UInt64) (hi : i < maxFilePages) (hm : FileBlock s m j)
      (hf : ((Fs.extend answers s k last).fileDataPool j).pages i = some f) :
      ((s.fileDataPool j).pages i = some f ∧
          (j = k → i < (s.fileDataPool k).numPages.toNat)) ∨
        (j = k ∧ (s.fileDataPool k).numPages.toNat ≤ i ∧ i ≤ last.toNat ∧
          f = answers (s.allocs + (i - (s.fileDataPool k).numPages.toNat))) := by
    by_cases hjk : j = k
    · subst hjk
      rw [hpage] at hf
      by_cases hnew : (s.fileDataPool j).numPages.toNat ≤ i ∧ i ≤ last.toNat
      · rw [if_pos hnew] at hf
        exact Or.inr ⟨rfl, hnew.1, hnew.2, (Option.some.inj hf).symm⟩
      · rw [if_neg hnew] at hf
        refine Or.inl ⟨hf, fun _ => ?_⟩
        exact (h.isSome_iff m j i hm hi).mp (by rw [hf]; rfl)
    · rw [extend_other answers last hjk] at hf
      exact Or.inl ⟨hf, fun heq => absurd heq hjk⟩
  have hnewAnswer (i : ℕ) (hi : i ≤ last.toNat) (hi' : (s.fileDataPool k).numPages.toNat ≤ i) :
      answers (s.allocs + (i - (s.fileDataPool k).numPages.toNat)) ≠ 0 := hok _ (by omega)
  -- new frames are none of the old ones
  have hold (m j i i' : ℕ) (hm : FileBlock s m j) (hi : i < maxFilePages) (hi' : i' ≤ last.toNat)
      (hnew : (s.fileDataPool k).numPages.toNat ≤ i')
      (hf : (s.fileDataPool j).pages i =
        some (answers (s.allocs + (i' - (s.fileDataPool k).numPages.toNat)))) : False := by
    obtain ⟨hne, l, hl, heq⟩ := h.taken m j i _ hm hi hf
    have := hfresh l _ heq (by rwa [heq])
    omega
  refine ⟨⟨?_, ?_, ?_, ?_, ?_⟩, h.block_lt, h.block_inj, ?_, h.no_block, h.file_data⟩
  · intro m j hm
    by_cases hjk : j = k
    · subst hjk
      rw [hnum]
      omega
    · rw [extend_other answers last hjk]
      exact h.pages_le m j hm
  · intro m j i hm hi
    by_cases hjk : j = k
    · subst hjk
      rw [hpage, hnum]
      by_cases hnew : (s.fileDataPool j).numPages.toNat ≤ i ∧ i ≤ last.toNat
      · rw [if_pos hnew]
        simp only [Option.isSome_some, true_iff]
        omega
      · rw [if_neg hnew, h.isSome_iff m j i hm hi]
        omega
    · rw [extend_other answers last hjk]
      exact h.isSome_iff m j i hm hi
  · intro m j i m' j' i' f hm hm' hi hi' hf hf'
    rcases hslot m j i f hi hm hf with ⟨hfOld, -⟩ | ⟨rfl, hge, hile, rfl⟩
    · rcases hslot m' j' i' f hi' hm' hf' with ⟨hfOld', -⟩ | ⟨rfl, hge', hile', rfl⟩
      · exact h.distinct m j i m' j' i' f hm hm' hi hi' hfOld hfOld'
      · exact (hold m j i i' hm hi hile' hge' hfOld).elim
    · rcases hslot m' j' i' _ hi' hm' hf' with ⟨hfOld', -⟩ | ⟨rfl, hge', hile', heq⟩
      · exact (hold m' j' i' i hm' hi' hile hge hfOld').elim
      · have := hfresh _ _ heq (hnewAnswer i hile hge)
        exact ⟨h.block_inj m m' _ hm hm', by omega⟩
  · intro j hj hne
    by_cases hlt : j < s.allocs
    · obtain ⟨m, l, i, hm, hi, hf⟩ := h.kept j hlt hne
      refine ⟨m, l, i, hm, hi, ?_⟩
      by_cases hlk : l = k
      · subst hlk
        have hilt := (h.isSome_iff m l i hm hi).mp (by rw [hf]; rfl)
        rw [hpage, if_neg (by omega)]
        exact hf
      · rw [extend_other answers last hlk]
        exact hf
    · rw [hallocs] at hj
      refine ⟨n, k, (s.fileDataPool k).numPages.toNat + (j - s.allocs), hb, ?_, ?_⟩
      · omega
      · rw [hpage, if_pos (by omega)]
        congr 2
        omega
  · intro m j hm
    by_cases hjk : j = k
    · subst hjk
      rw [hnum]
      exact (h.size_le m j hm).trans (Nat.mul_le_mul_right _ (Nat.le_max_left ..))
    · rw [extend_other answers last hjk]
      exact h.size_le m j hm
  · intro m j i f hm hi hf
    rcases hslot m j i f hi hm hf with ⟨hf, -⟩ | ⟨rfl, hge, hile, rfl⟩
    · obtain ⟨hne, l, hl, heq⟩ := h.taken m j i f hm hi hf
      exact ⟨hne, l, by rw [hallocs]; omega, heq⟩
    · exact ⟨hnewAnswer i hile hge, _, by rw [hallocs]; omega, rfl⟩

end extend

/-! ## The first write to a file -/

/-- Node `n` gets the next block of the pool, emptied. -/
def addBlock (s : Vfs) (n : ℕ) : Vfs :=
  { (s.setFile s.fileDataCount ⟨fun _ => none, 0⟩).setNode n
      { s.ramfsNodePool n with fsData := .file s.fileDataCount } with
    fileDataCount := s.fileDataCount + 1 }

/-- The block a write works on is the file's own, a new one, or missing. -/
inductive Ensured (s : Vfs) (n : ℕ) : Option (ℕ × Vfs) → Prop
  | had {k : ℕ} : (s.ramfsNodePool n).fsData = .file k → Ensured s n (some (k, s))
  | added : (s.ramfsNodePool n).fsData = .null → s.fileDataCount < maxRamfsFiles →
      Ensured s n (some (s.fileDataCount, addBlock s n))
  | full : (s.ramfsNodePool n).fsData = .null → maxRamfsFiles ≤ s.fileDataCount →
      Ensured s n none

theorem ensureFileData_cases {s : Vfs} (h : BlocksInv answers s) {n : ℕ}
    (hdir : ¬ (s.ramfsNodePool n).isDir) :
    Ensured s n (ensureFileData s n (s.ramfsNodePool n).fsData) := by
  cases hdata : (s.ramfsNodePool n).fsData with
  | dir d => exact absurd hdata (h.file_data n d hdir)
  | file k => exact .had hdata
  | null =>
    by_cases hfull : s.fileDataCount ≥ maxRamfsFiles
    · simp only [ensureFileData, if_pos hfull]
      exact .full hdata hfull
    · simp only [ensureFileData, if_neg hfull]
      exact .added hdata (Nat.lt_of_not_le hfull)

section addBlock

variable {s : Vfs} {n : ℕ}

theorem addBlock_node : (addBlock s n).ramfsNodePool n =
    { s.ramfsNodePool n with fsData := .file s.fileDataCount } := Function.update_self ..

theorem addBlock_node_of_ne {m : ℕ} (hm : m ≠ n) :
    (addBlock s n).ramfsNodePool m = s.ramfsNodePool m := Function.update_of_ne hm ..

theorem addBlock_new : (addBlock s n).fileDataPool s.fileDataCount = ⟨fun _ => none, 0⟩ :=
  Function.update_self ..

theorem addBlock_old {j : ℕ} (hj : j ≠ s.fileDataCount) :
    (addBlock s n).fileDataPool j = s.fileDataPool j := Function.update_of_ne hj ..

theorem fileBlock_addBlock (hdir : ¬ (s.ramfsNodePool n).isDir) :
    FileBlock (addBlock s n) n s.fileDataCount := by
  rw [FileBlock, addBlock_node]
  exact ⟨hdir, rfl⟩

/-- The blocks after one was added: the new one, and the old ones. -/
theorem fileBlock_addBlock_cases (h : BlocksInv answers s)
    (hnull : (s.ramfsNodePool n).fsData = .null) {m j : ℕ} (hm : FileBlock (addBlock s n) m j) :
    (m = n ∧ j = s.fileDataCount) ∨ (m ≠ n ∧ FileBlock s m j ∧ j ≠ s.fileDataCount) := by
  by_cases hmn : m = n
  · subst hmn
    have hdata := hm.2
    rw [addBlock_node] at hdata
    exact Or.inl ⟨rfl, (FsData.file.inj hdata).symm⟩
  · rw [FileBlock, addBlock_node_of_ne hmn] at hm
    exact Or.inr ⟨hmn, hm, Nat.ne_of_lt (h.block_lt m j hm)⟩

theorem FileBlock.addBlock {m j : ℕ} (hm : FileBlock s m j)
    (hnull : (s.ramfsNodePool n).fsData = .null) : FileBlock (Fs.addBlock s n) m j := by
  have hmn : m ≠ n := by
    rintro rfl
    exact FsData.noConfusion (hnull.symm.trans hm.2)
  rwa [FileBlock, addBlock_node_of_ne hmn]

theorem BlocksInv.addBlock (h : BlocksInv answers s) (hdir : ¬ (s.ramfsNodePool n).isDir)
    (hnull : (s.ramfsNodePool n).fsData = .null) : BlocksInv answers (addBlock s n) := by
  have hcases {m j : ℕ} (hm : FileBlock (Fs.addBlock s n) m j) :=
    fileBlock_addBlock_cases h hnull hm
  -- a filled slot is a slot of an old block
  have hslot {m j i : ℕ} {f : UInt64} (hm : FileBlock (Fs.addBlock s n) m j)
      (hf : ((Fs.addBlock s n).fileDataPool j).pages i = some f) :
      FileBlock s m j ∧ (s.fileDataPool j).pages i = some f := by
    rcases hcases hm with ⟨rfl, rfl⟩ | ⟨-, hm, hj⟩
    · rw [addBlock_new] at hf
      cases hf
    · rw [addBlock_old hj] at hf
      exact ⟨hm, hf⟩
  refine ⟨⟨?_, ?_, ?_, ?_, ?_⟩, ?_, ?_, ?_, ?_, ?_⟩
  · intro m j hm
    rcases hcases hm with ⟨rfl, rfl⟩ | ⟨-, hm, hj⟩
    · rw [addBlock_new]
      exact Nat.zero_le _
    · rw [addBlock_old hj]
      exact h.pages_le m j hm
  · intro m j i hm hi
    rcases hcases hm with ⟨rfl, rfl⟩ | ⟨-, hm, hj⟩
    · rw [addBlock_new]
      simp
    · rw [addBlock_old hj]
      exact h.isSome_iff m j i hm hi
  · intro m j i m' j' i' f hm hm' hi hi' hf hf'
    obtain ⟨hm, hf⟩ := hslot hm hf
    obtain ⟨hm', hf'⟩ := hslot hm' hf'
    exact h.distinct m j i m' j' i' f hm hm' hi hi' hf hf'
  · intro j hj hne
    obtain ⟨m, l, i, hm, hi, hf⟩ := h.kept j hj hne
    refine ⟨m, l, i, hm.addBlock hnull, hi, ?_⟩
    rwa [addBlock_old (Nat.ne_of_lt (h.block_lt m l hm))]
  · intro m j hm
    rcases hcases hm with ⟨rfl, rfl⟩ | ⟨hmn, hm, hj⟩
    · rw [addBlock_node, addBlock_new, h.no_block m hdir hnull]
      exact Nat.zero_le _
    · rw [addBlock_node_of_ne hmn, addBlock_old hj]
      exact h.size_le m j hm
  · intro m j hm
    rcases hcases hm with ⟨rfl, rfl⟩ | ⟨-, hm, hj⟩
    · exact Nat.lt_succ_self _
    · exact (h.block_lt m j hm).trans (Nat.lt_succ_self _)
  · intro m m' j hm hm'
    rcases hcases hm with ⟨rfl, rfl⟩ | ⟨-, hm, hj⟩
    · rcases hcases hm' with ⟨rfl, -⟩ | ⟨-, -, hj'⟩
      · rfl
      · exact absurd rfl hj'
    · rcases hcases hm' with ⟨rfl, rfl⟩ | ⟨-, hm', -⟩
      · exact absurd rfl hj
      · exact h.block_inj m m' j hm hm'
  · intro m j i f hm hi hf
    obtain ⟨hm, hf⟩ := hslot hm hf
    exact h.taken m j i f hm hi hf
  · intro m hmdir hmnull
    by_cases hmn : m = n
    · subst hmn
      rw [addBlock_node] at hmnull
      cases hmnull
    · rw [addBlock_node_of_ne hmn] at hmdir hmnull ⊢
      exact h.no_block m hmdir hmnull
  · intro m d hmdir
    by_cases hmn : m = n
    · subst hmn
      rw [addBlock_node]
      exact FsData.noConfusion
    · rw [addBlock_node_of_ne hmn] at hmdir ⊢
      exact h.file_data m d hmdir

/-- An empty file reads the same with an empty block. -/
theorem ramfsRead_addBlock (h : BlocksInv answers s) (hdir : ¬ (s.ramfsNodePool n).isDir)
    (hnull : (s.ramfsNodePool n).fsData = .null) (offset : UInt64) (size : UInt32) :
    ramfsRead (addBlock s n) (some n) offset size = ramfsRead s (some n) offset size := by
  have hdir' : ¬ ((addBlock s n).ramfsNodePool n).isDir := by
    rw [addBlock_node]
    exact hdir
  have hempty : offset ≥ ((addBlock s n).ramfsNodePool n).size.toUInt64 := by
    rw [addBlock_node, h.no_block n hdir hnull]
    exact UInt64.zero_le
  have hdata : ((addBlock s n).ramfsNodePool n).fsData = .file s.fileDataCount := by
    rw [addBlock_node]
  simp only [ramfsRead, if_neg hdir, if_neg hdir', hnull, hdata, if_pos hempty]

end addBlock

end Rhoudveine.Fs
