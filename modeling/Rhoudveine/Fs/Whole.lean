import Rhoudveine.Fs.Directories
import Rhoudveine.Fs.Bytes

/-!
# Files written in one piece

The first write to a new file, from its start.  An empty one takes all the 128 pages a file can
have.
-/

namespace Rhoudveine.Fs
open Walk

variable {answers : ℕ → UInt64}

/-- The pages that the first write of `length` bytes allocates. -/
def pagesTaken (length : ℕ) : ℕ := if length = 0 then maxFilePages else (length - 1) / 4096 + 1

/-- The file `n` has this content, in pages of its own. -/
structure Stored (answers : ℕ → UInt64) (s : Vfs) (n : ℕ) (content : List UInt8) (k base : ℕ) :
    Prop where
  block : FileBlock s n k
  block_lt : k < s.fileDataCount
  size : (s.ramfsNodePool n).size.toNat = content.length
  pages_le : (s.fileDataPool k).numPages.toNat ≤ 128
  fits : content.length ≤ (s.fileDataPool k).numPages.toNat * 4096
  pages : ∀ i < (s.fileDataPool k).numPages.toNat,
    (s.fileDataPool k).pages i = some (answers (base + i)) ∧ base + i < s.allocs ∧
      answers (base + i) ≠ 0
  bytes : ∀ i (hi : i < content.length),
    Paged.view 4096 (s.fileDataPool k).frame s.frames i = content[i]

/-- A file without a data block. -/
structure NewFile (s : Vfs) (n : ℕ) : Prop where
  not_dir : ¬ (s.ramfsNodePool n).isDir
  null : (s.ramfsNodePool n).fsData = .null
  size : (s.ramfsNodePool n).size = 0

/-- Only file data changed. -/
structure SameTree (s s' : Vfs) : Prop where
  flags : ∀ n, (s'.ramfsNodePool n).flags = (s.ramfsNodePool n).flags
  ops : ∀ n, (s'.ramfsNodePool n).ops = (s.ramfsNodePool n).ops
  mount : ∀ n, (s'.ramfsNodePool n).mount = (s.ramfsNodePool n).mount
  dir_data : ∀ n, (s.ramfsNodePool n).isDir →
    (s'.ramfsNodePool n).fsData = (s.ramfsNodePool n).fsData
  own_dir : ∀ n d, (s'.ramfsNodePool n).fsData = .dir d → (s.ramfsNodePool n).fsData = .dir d
  data : s'.ramfsDataPool = s.ramfsDataPool
  count : s'.ramfsNodeCount = s.ramfsNodeCount
  root : s'.gVfsRoot = s.gVfsRoot
  mounts : s'.gMounts = s.gMounts ∧ s'.gMountCount = s.gMountCount

namespace SameTree

variable {s s' s'' : Vfs}

theorem refl (s : Vfs) : SameTree s s :=
  ⟨fun _ => rfl, fun _ => rfl, fun _ => rfl, fun _ _ => rfl, fun _ _ h => h, rfl, rfl, rfl, rfl, rfl⟩

theorem isDir_iff (h : SameTree s s') (n : ℕ) :
    (s'.ramfsNodePool n).isDir ↔ (s.ramfsNodePool n).isDir := by
  rw [Node.isDir, Node.isDir, h.flags n]

theorem trans (h : SameTree s s') (h' : SameTree s' s'') : SameTree s s'' where
  flags n := (h'.flags n).trans (h.flags n)
  ops n := (h'.ops n).trans (h.ops n)
  mount n := (h'.mount n).trans (h.mount n)
  dir_data n hn := (h'.dir_data n ((h.isDir_iff n).mpr hn)).trans (h.dir_data n hn)
  own_dir n d hd := h.own_dir n d (h'.own_dir n d hd)
  data := h'.data.trans h.data
  count := h'.count.trans h.count
  root := h'.root.trans h.root
  mounts := ⟨h'.mounts.1.trans h.mounts.1, h'.mounts.2.trans h.mounts.2⟩

theorem finddir (h : SameTree s s') (n : ℕ) (y : Str) :
    ramfsFinddir s' n y = ramfsFinddir s n y := by
  unfold ramfsFinddir
  by_cases hdir : (s.ramfsNodePool n).isDir
  · simp only [h.isDir_iff, h.dir_data n hdir, h.data]
  · simp only [h.isDir_iff, if_pos hdir]

theorem walk_eq (h : SameTree s s') (comps : List Str) :
    walk (ramfsFinddir s') 0 comps = walk (ramfsFinddir s) 0 comps := by
  have hfind : ramfsFinddir s' = ramfsFinddir s := by
    funext n y
    exact h.finddir n y
  rw [hfind]

theorem oneTree (h : SameTree s s') (ht : OneTree s) : OneTree s' where
  own_dir n d hn hd := ht.own_dir n d (h.count ▸ hn) (h.own_dir n d hd)
  child_lt n i c hn hc := by
    rw [h.data] at hc
    rw [h.count] at hn ⊢
    exact ht.child_lt n i c hn hc
  root_lt r hr := by
    rw [h.root] at hr
    rw [h.count]
    exact ht.root_lt r hr
  entry_root i hi := by
    rw [h.mounts.2] at hi
    rw [h.mounts.1, h.count]
    exact ht.entry_root i hi
  link_lt n k hk := by
    rw [h.mount] at hk
    rw [h.mounts.2]
    exact ht.link_lt n k hk
  root_eq := h.root.trans ht.root_eq
  root_dir := (h.isDir_iff 0).mpr ht.root_dir
  dir_lt n hn := by
    rw [h.count]
    exact ht.dir_lt n ((h.isDir_iff n).mp hn)
  dir_data n hn := by
    have hdir := (h.isDir_iff n).mp hn
    exact (h.dir_data n hdir).trans (ht.dir_data n hdir)
  ops n hn := (h.ops n).trans (ht.ops n (h.count ▸ hn))
  unlinked n hn := (h.mount n).trans (ht.unlinked n hn)
  packed := by
    rw [h.data]
    exact ht.packed
  child_ne := by
    rw [h.data, h.count]
    exact ht.child_ne
  child_inj := by
    rw [h.data, h.count]
    exact ht.child_inj

end SameTree

/-! ## Stored files -/

namespace Stored

variable {s s' : Vfs} {n k base : ℕ} {content : List UInt8}

theorem backed (h : Stored answers s n content k base) : (s.fileDataPool k).Backed where
  le := h.pages_le
  pages i hi := by
    rw [(h.pages i hi).1]
    rfl

theorem frame_eq (h : Stored answers s n content k base) {i : ℕ}
    (hi : i < (s.fileDataPool k).numPages.toNat) :
    (s.fileDataPool k).frame i = answers (base + i) := by
  rw [FileData.frame, (h.pages i hi).1, Option.getD_some]

theorem page_lt (h : Stored answers s n content k base) {i : ℕ} (hi : i < content.length) :
    i / 4096 < (s.fileDataPool k).numPages.toNat := by
  have hfits := h.fits
  omega

/-- A read of the whole file. -/
theorem read (h : Stored answers s n content k base) {size : UInt32}
    (hsize : content.length ≤ size.toNat) :
    ramfsRead s (some n) 0 size = some ((content.length : ℤ), content) := by
  have hfits : (s.ramfsNodePool n).size.toNat ≤ (s.fileDataPool k).numPages.toNat * 4096 :=
    h.size.trans_le h.fits
  have hread := ramfsRead_file h.block.1 h.block.2 h.backed hfits 0 size
  have hcount : min size.toNat ((s.ramfsNodePool n).size.toNat - (0 : UInt64).toNat) =
      content.length := by
    rw [h.size, UInt64.toNat_zero, Nat.sub_zero, Nat.min_eq_right hsize]
  dsimp only at hread
  rw [hcount] at hread
  have hcontent : (List.range content.length).map (fun i =>
      Paged.view 4096 (s.fileDataPool k).frame s.frames ((0 : UInt64).toNat + i)) = content := by
    apply List.ext_getElem
    · rw [List.length_map, List.length_range]
    · intro i hi hi'
      rw [List.getElem_map, List.getElem_range, UInt64.toNat_zero, Nat.zero_add, h.bytes i hi']
  rw [hread, hcontent]

/-- What else happens in the state, as long as it leaves the file and its pages alone. -/
theorem mono (h : Stored answers s n content k base)
    (hnode : s'.ramfsNodePool n = s.ramfsNodePool n)
    (hblock : s'.fileDataPool k = s.fileDataPool k) (hcount : s.fileDataCount ≤ s'.fileDataCount)
    (hallocs : s.allocs ≤ s'.allocs)
    (hframes : ∀ i < (s.fileDataPool k).numPages.toNat,
      s'.frames (answers (base + i)) = s.frames (answers (base + i))) :
    Stored answers s' n content k base where
  block := by
    rw [FileBlock, hnode]
    exact h.block
  block_lt := h.block_lt.trans_le hcount
  size := by
    rw [hnode]
    exact h.size
  pages_le := hblock ▸ h.pages_le
  fits := hblock ▸ h.fits
  pages i hi := by
    rw [hblock] at hi ⊢
    obtain ⟨hpage, hlt, hne⟩ := h.pages i hi
    exact ⟨hpage, hlt.trans_le hallocs, hne⟩
  bytes i hi := by
    have hpage := h.page_lt hi
    rw [hblock, Paged.view, h.frame_eq hpage, hframes _ hpage, ← h.frame_eq hpage]
    exact h.bytes i hi

end Stored

/-! ## The first write -/

section stages

variable {s : Vfs} {n : ℕ}

theorem SameTree.of_pool {s' : Vfs} (hpool : s'.ramfsNodePool = s.ramfsNodePool)
    (hdata : s'.ramfsDataPool = s.ramfsDataPool) (hcount : s'.ramfsNodeCount = s.ramfsNodeCount)
    (hroot : s'.gVfsRoot = s.gVfsRoot) (hmounts : s'.gMounts = s.gMounts)
    (hentries : s'.gMountCount = s.gMountCount) : SameTree s s' where
  flags n := by rw [hpool]
  ops n := by rw [hpool]
  mount n := by rw [hpool]
  dir_data n _ := by rw [hpool]
  own_dir n d hd := by rwa [hpool] at hd
  data := hdata
  count := hcount
  root := hroot
  mounts := ⟨hmounts, hentries⟩

theorem sameTree_addBlock (hdir : ¬ (s.ramfsNodePool n).isDir) : SameTree s (addBlock s n) := by
  have hnode {α : Type} (f : Node → α) (hf : ∀ node data, f { node with fsData := data } = f node)
      (m : ℕ) : f ((addBlock s n).ramfsNodePool m) = f (s.ramfsNodePool m) := by
    by_cases hmn : m = n
    · subst hmn
      rw [addBlock_node, hf]
    · rw [addBlock_node_of_ne hmn]
  exact {
    flags := hnode Node.flags fun _ _ => rfl
    ops := hnode Node.ops fun _ _ => rfl
    mount := hnode Node.mount fun _ _ => rfl
    dir_data := fun m hm => by
      have hmn : m ≠ n := fun heq => hdir (heq ▸ hm)
      rw [addBlock_node_of_ne hmn]
    own_dir := fun m d hd => by
      by_cases hmn : m = n
      · subst hmn
        rw [addBlock_node] at hd
        cases hd
      · rwa [addBlock_node_of_ne hmn] at hd
    data := rfl
    count := rfl
    root := rfl
    mounts := ⟨rfl, rfl⟩ }

theorem sameTree_raiseSize (s : Vfs) (n : ℕ) (last : UInt64) : SameTree s (raiseSize s n last) := by
  unfold raiseSize
  dsimp only
  split
  · have hnode {α : Type} (f : Node → α) (size : UInt32)
        (hf : ∀ node, f { node with size := size } = f node) (m : ℕ) :
        f ((s.setNode n { s.ramfsNodePool n with size := size }).ramfsNodePool m) =
          f (s.ramfsNodePool m) := by
      by_cases hmn : m = n
      · subst hmn
        rw [setNode_pool, Function.update_self, hf]
      · rw [setNode_pool, Function.update_of_ne hmn]
    exact {
      flags := hnode Node.flags _ fun _ => rfl
      ops := hnode Node.ops _ fun _ => rfl
      mount := hnode Node.mount _ fun _ => rfl
      dir_data := fun m _ => hnode Node.fsData _ (fun _ => rfl) m
      own_dir := fun m d hd => (hnode Node.fsData _ (fun _ => rfl) m).symm.trans hd
      data := rfl
      count := rfl
      root := rfl
      mounts := ⟨rfl, rfl⟩ }
  · exact .refl s

theorem raiseSize_allocs (s : Vfs) (n : ℕ) (last : UInt64) :
    (raiseSize s n last).allocs = s.allocs := by
  unfold raiseSize
  dsimp only
  split <;> rfl

theorem Stored.addBlock {m k base : ℕ} {content : List UInt8}
    (h : Stored answers s m content k base) (hmn : m ≠ n) :
    Stored answers (addBlock s n) m content k base :=
  h.mono (addBlock_node_of_ne hmn) (addBlock_old (Nat.ne_of_lt h.block_lt)) (Nat.le_succ _) le_rfl
    fun _ _ => rfl

/-- What the first write leaves. -/
structure FirstWrite (answers : ℕ → UInt64) (s : Vfs) (n : ℕ) (content : List UInt8) (s' : Vfs) :
    Prop where
  tree : SameTree s s'
  stored : Stored answers s' n content s.fileDataCount s.allocs
  kept : ∀ m content' k base, m ≠ n → Stored answers s m content' k base →
    Stored answers s' m content' k base
  fds : s'.gFds = s.gFds
  count : s'.fileDataCount = s.fileDataCount + 1
  allocs : s'.allocs = s.allocs + pagesTaken content.length

/-- An empty first write allocates all pages and counts none. -/
theorem firstWrite_empty (h : NewFile s n)
    (hpages : ∀ i < maxFilePages, answers (s.allocs + i) ≠ 0) (data : ℕ → UInt8) :
    ∃ s', writeFile answers (addBlock s n) n s.fileDataCount 0 0 data = some (0, s') ∧
      FirstWrite answers s n [] s' := by
  have hlast : (endPage 0 0).toNat = 2 ^ 32 - 1 := by
    rw [toNat_endPage]
    rfl
  have hnone : ((addBlock s n).fileDataPool s.fileDataCount).numPages.toNat = 0 := by
    rw [addBlock_new]
    rfl
  have hle : ((addBlock s n).fileDataPool s.fileDataCount).numPages.toNat ≤ maxFilePages :=
    hnone ▸ Nat.zero_le _
  have hout := writeFile_outcome answers n 0 0 data hle
  generalize writeFile answers (addBlock s n) n s.fileDataCount 0 0 data = out at hout
  cases hout with
  | @failed i _ hi _ hzero =>
    rw [hnone, Nat.zero_add] at hi
    exact absurd hzero (hpages i hi)
  | extended hlt _ =>
    rw [hlast, maxFilePages] at hlt
    omega
  -- no bytes still ask for page 2^32 - 1, so every page is taken and the count wraps to 0
  | overrun _ _ =>
    rw [storeBytes_empty, raiseSize_same (Or.inl (UInt64.zero_le))]
    refine ⟨_, rfl, ?_⟩
    have htree : SameTree (addBlock s n) (overrun answers (addBlock s n) s.fileDataCount (endPage 0 0)) :=
      .of_pool rfl rfl rfl rfl rfl rfl
    have hblock : (overrun answers (addBlock s n) s.fileDataCount (endPage 0 0)).fileDataPool
        s.fileDataCount = { grow answers ((addBlock s n).fileDataPool s.fileDataCount)
          ((addBlock s n).fileDataPool s.fileDataCount).numPages.toNat
          (maxFilePages - ((addBlock s n).fileDataPool s.fileDataCount).numPages.toNat)
          (addBlock s n).allocs with numPages := endPage 0 0 + 1 } := Function.update_self ..
    have hzero : (endPage 0 0 + 1).toNat = 0 := by
      rw [UInt32.toNat_add, hlast]
      rfl
    exact {
      tree := (sameTree_addBlock h.not_dir).trans htree
      stored := {
        block := fileBlock_addBlock h.not_dir
        block_lt := Nat.lt_succ_self _
        size := by
          change ((addBlock s n).ramfsNodePool n).size.toNat = 0
          rw [addBlock_node, h.size]
          rfl
        pages_le := by
          rw [hblock]
          exact hzero ▸ Nat.zero_le _
        fits := Nat.zero_le _
        pages := fun i hi => by
          rw [hblock] at hi
          change i < (endPage 0 0 + 1).toNat at hi
          rw [hzero] at hi
          cases hi
        bytes := fun i hi => by cases hi }
      kept := fun m content' k base hmn hm => by
        have hk : k ≠ s.fileDataCount := Nat.ne_of_lt hm.block_lt
        exact (hm.addBlock hmn).mono rfl (Function.update_of_ne hk _ _) le_rfl
          (Nat.le_add_right _ _) fun _ _ => rfl
      fds := rfl
      count := rfl
      allocs := by
        change s.allocs + (maxFilePages -
          ((addBlock s n).fileDataPool s.fileDataCount).numPages.toNat) = _
        rw [hnone]
        rfl }

/-- A new block has got its pages. -/
structure NewPages (answers : ℕ → UInt64) (s : Vfs) (n count : ℕ) (t : Vfs) : Prop where
  nodes : t.ramfsNodePool = (addBlock s n).ramfsNodePool
  tree : SameTree (addBlock s n) t
  fds : t.gFds = s.gFds
  fileDataCount : t.fileDataCount = s.fileDataCount + 1
  allocs : t.allocs = s.allocs + count
  frames : t.frames = s.frames
  numPages : (t.fileDataPool s.fileDataCount).numPages.toNat = count
  pages : ∀ i < count, (t.fileDataPool s.fileDataCount).pages i = some (answers (s.allocs + i))
  old : ∀ k ≠ s.fileDataCount, t.fileDataPool k = (addBlock s n).fileDataPool k

theorem newPages_extend {count : ℕ} {last : UInt32} (hlt : last.toNat < maxFilePages)
    (hcount : last.toNat + 1 = count) :
    NewPages answers s n count (extend answers (addBlock s n) s.fileDataCount last) := by
  have hnone : ((addBlock s n).fileDataPool s.fileDataCount).numPages.toNat = 0 := by
    rw [addBlock_new]
    rfl
  have hnum := toNat_extend_numPages (s := addBlock s n) (k := s.fileDataCount) answers hlt
  rw [hnone, Nat.zero_max, hcount] at hnum
  have hallocs : (extend answers (addBlock s n) s.fileDataCount last).allocs = s.allocs +
      (last.toNat + 1 - ((addBlock s n).fileDataPool s.fileDataCount).numPages.toNat) := rfl
  rw [hnone, hcount, Nat.sub_zero] at hallocs
  refine ⟨rfl, .of_pool rfl rfl rfl rfl rfl rfl, rfl, rfl, hallocs, rfl, hnum, fun i hi => ?_,
    fun k hk => extend_other answers _ hk⟩
  rw [extend_pages, hnone, if_pos ⟨Nat.zero_le i, by omega⟩]
  rfl

namespace NewPages
variable {t : Vfs} {count : ℕ} (h : NewPages answers s n count t)
include h

theorem frame {i : ℕ} (hi : i < count) :
    (t.fileDataPool s.fileDataCount).frame i = answers (s.allocs + i) := by
  rw [FileData.frame, h.pages i hi, Option.getD_some]

theorem backed (hmax : count ≤ 128) : (t.fileDataPool s.fileDataCount).Backed := by
  constructor
  · rw [h.numPages]
    exact hmax
  · intro i hi
    rw [h.pages i (h.numPages ▸ hi)]
    rfl

variable {size : UInt32} {content : List UInt8} {data : ℕ → UInt8}
  (hsize : size.toNat = content.length) (hcount : (content.length - 1) / 4096 + 1 = count)
  (hmax : content.length ≤ 128 * 4096) (hpages : ∀ i < count, answers (s.allocs + i) ≠ 0)
  (hfresh : FreshAnswers answers)
include hsize hcount hmax hpages hfresh

/-- The bytes of the new file. -/
theorem stored (hnew : NewFile s n) (hpos : content ≠ [])
    (hdata : ∀ i (hi : i < content.length), data i = content[i]) :
    Stored answers (raiseSize (putBytes t s.fileDataCount 0 size data) n (0 + size.toUInt64)) n
      content s.fileDataCount s.allocs := by
  have hlength := List.length_pos_of_ne_nil hpos
  have hposition : position 0 = 0 := rfl
  constructor
  · rw [fileBlock_raiseSize, FileBlock]
    change ¬ (t.ramfsNodePool n).isDir ∧ (t.ramfsNodePool n).fsData = _
    rw [h.nodes]
    exact fileBlock_addBlock hnew.not_dir
  · rw [raiseSize_fileDataCount]
    exact h.fileDataCount ▸ Nat.lt_succ_self _
  · have hzero : (t.ramfsNodePool n).size = 0 := by
      rw [h.nodes, addBlock_node, hnew.size]
    have hend : ((0 : UInt64) + size.toUInt64).toNat = content.length := by
      rw [UInt64.zero_add, UInt32.toNat_toUInt64, hsize]
    rw [raiseSize_self]
    change (if 0 + size.toUInt64 > (t.ramfsNodePool n).size.toUInt64 then _ else _ :
      UInt32).toNat = _
    rw [hzero, if_pos, UInt64.toNat_toUInt32, hend]
    · exact Nat.mod_eq_of_lt (hmax.trans_lt (by norm_num))
    · rw [gt_iff_lt, UInt64.lt_iff_toNat_lt, hend]
      exact hlength
  · rw [raiseSize_fileDataPool]
    exact (h.backed (by omega)).le
  · rw [raiseSize_fileDataPool]
    change content.length ≤ (t.fileDataPool s.fileDataCount).numPages.toNat * 4096
    rw [h.numPages, ← hcount]
    exact le_pages _
  · intro i hi
    rw [raiseSize_fileDataPool] at hi ⊢
    change i < (t.fileDataPool s.fileDataCount).numPages.toNat at hi
    rw [h.numPages] at hi
    refine ⟨h.pages i hi, ?_, hpages i hi⟩
    rw [raiseSize_allocs]
    change s.allocs + i < t.allocs
    rw [h.allocs]
    exact Nat.add_lt_add_left hi _
  · intro i hi
    rw [raiseSize_fileDataPool, raiseSize_frames]
    change Paged.view 4096 (t.fileDataPool s.fileDataCount).frame (Paged.write 4096
      (t.fileDataPool s.fileDataCount).frame t.frames (position 0) data size.toNat) i = _
    rw [Paged.view_write, hposition, if_pos ⟨Nat.zero_le i, by omega⟩, Nat.sub_zero, hdata i hi]
    -- two pages of one frame would be two equal answers
    intro j hj heq
    rw [hposition, Nat.zero_add] at heq ⊢
    rw [h.frame (by omega), h.frame (by omega)] at heq
    have hsame := hfresh _ _ heq (hpages _ (by omega))
    omega

/-- The new frames are none of those of another file. -/
theorem kept {m k base : ℕ} {content' : List UInt8} (hmn : m ≠ n)
    (hm : Stored answers s m content' k base) :
    Stored answers (raiseSize (putBytes t s.fileDataCount 0 size data) n (0 + size.toUInt64)) m
      content' k base := by
  have hk : k ≠ s.fileDataCount := Nat.ne_of_lt hm.block_lt
  have hadd := hm.addBlock hmn
  have hposition : position 0 = 0 := rfl
  apply hadd.mono
  · rw [raiseSize_of_ne _ _ hmn]
    exact congrFun h.nodes m
  · rw [raiseSize_fileDataPool]
    exact h.old k hk
  · rw [raiseSize_fileDataCount]
    exact h.fileDataCount.ge
  · rw [raiseSize_allocs]
    change s.allocs ≤ t.allocs
    exact h.allocs ▸ Nat.le_add_right _ _
  · intro i hi
    obtain ⟨-, hlt, hne⟩ := hadd.pages i hi
    rw [raiseSize_frames]
    change Paged.write 4096 (t.fileDataPool s.fileDataCount).frame t.frames (position 0) data
      size.toNat (answers (base + i)) = s.frames (answers (base + i))
    rw [Paged.write_of_ne, h.frames]
    intro j hj heq
    rw [hposition, Nat.zero_add, h.frame (by omega)] at heq
    have hsame := hfresh _ _ heq (hpages _ (by omega))
    change base + i < s.allocs at hlt
    omega

end NewPages

/-- The pages of a new file behind those allocated so far. -/
theorem firstWrite_bytes (hfresh : FreshAnswers answers) (h : NewFile s n) {size : UInt32}
    {content : List UInt8} (hsize : size.toNat = content.length) (hpos : content ≠ [])
    (hmax : content.length ≤ maxFilePages * 4096)
    (hpages : ∀ i < (content.length - 1) / 4096 + 1, answers (s.allocs + i) ≠ 0)
    {data : ℕ → UInt8} (hdata : ∀ i (hi : i < content.length), data i = content[i]) :
    ∃ s', writeFile answers (addBlock s n) n s.fileDataCount 0 size data =
        some ((content.length : ℤ), s') ∧ FirstWrite answers s n content s' := by
  have hlength := List.length_pos_of_ne_nil hpos
  unfold maxFilePages at hmax
  have hlast : (endPage 0 size).toNat = (content.length - 1) / 4096 := by
    rw [toNat_endPage, hsize, UInt64.toNat_zero]
    omega
  have hnone : ((addBlock s n).fileDataPool s.fileDataCount).numPages.toNat = 0 := by
    rw [addBlock_new]
    rfl
  have hle : ((addBlock s n).fileDataPool s.fileDataCount).numPages.toNat ≤ maxFilePages :=
    hnone ▸ Nat.zero_le _
  have hout := writeFile_outcome answers n 0 size data hle
  generalize writeFile answers (addBlock s n) n s.fileDataCount 0 size data = out at hout
  cases hout with
  | @failed i hi _ _ hzero =>
    rw [hnone, Nat.zero_add, hlast] at hi
    exact absurd hzero (hpages i (Nat.lt_succ_of_le hi))
  | overrun hge _ =>
    rw [hlast, maxFilePages] at hge
    omega
  | extended hlt _ =>
    have hcount : (endPage 0 size).toNat + 1 = (content.length - 1) / 4096 + 1 := by rw [hlast]
    have ht : NewPages answers s n ((content.length - 1) / 4096 + 1) _ :=
      newPages_extend hlt hcount
    generalize extend answers (addBlock s n) s.fileDataCount (endPage 0 size) = t at ht
    have hposition : position 0 = 0 := rfl
    have hfit : position 0 + size.toNat ≤ (t.fileDataPool s.fileDataCount).numPages.toNat * 4096 := by
      rw [hposition, hsize, ht.numPages]
      omega
    rw [storeBytes_inside n data (ht.backed (by omega)) hfit, hsize]
    refine ⟨_, rfl, ?_⟩
    constructor
    · have hbytes : SameTree t (putBytes t s.fileDataCount 0 size data) :=
        .of_pool rfl rfl rfl rfl rfl rfl
      exact (((sameTree_addBlock h.not_dir).trans ht.tree).trans hbytes).trans
        (sameTree_raiseSize _ _ _)
    · exact ht.stored hsize rfl hmax hpages hfresh h hpos hdata
    · intro m content' k base hmn hm
      exact ht.kept hsize rfl hmax hpages hfresh hmn hm
    · exact (raiseSize_gFds _ _ _).trans ht.fds
    · exact (raiseSize_fileDataCount _ _ _).trans ht.fileDataCount
    · rw [raiseSize_allocs, pagesTaken, if_neg (Nat.ne_of_gt hlength)]
      exact ht.allocs

theorem ramfsWrite_new (h : NewFile s n) (hroom : s.fileDataCount < maxRamfsFiles) (offset : UInt64)
    (size : UInt32) (data : ℕ → UInt8) :
    ramfsWrite answers s (some n) offset size data =
      writeFile answers (addBlock s n) n s.fileDataCount offset size data := by
  have hfull : ¬ s.fileDataCount ≥ maxRamfsFiles := Nat.not_le.mpr hroom
  simp only [ramfsWrite, if_neg h.not_dir, h.null, ensureFileData, if_neg hfull]
  rfl

/-- The first write of a file for which there are pages. -/
theorem ramfsWrite_first (hfresh : FreshAnswers answers) (h : NewFile s n)
    (hroom : s.fileDataCount < maxRamfsFiles) {size : UInt32} {content : List UInt8}
    (hsize : size.toNat = content.length) (hmax : content.length ≤ maxFilePages * 4096)
    (hpages : ∀ i < pagesTaken content.length, answers (s.allocs + i) ≠ 0) {data : ℕ → UInt8}
    (hdata : ∀ i (hi : i < content.length), data i = content[i]) :
    ∃ s', ramfsWrite answers s (some n) 0 size data = some ((content.length : ℤ), s') ∧
      FirstWrite answers s n content s' := by
  rw [ramfsWrite_new h hroom]
  by_cases hempty : content = []
  · subst hempty
    obtain rfl : size = 0 := UInt32.toNat_inj.mp hsize
    exact firstWrite_empty h hpages data
  · rw [pagesTaken, if_neg (List.length_pos_of_ne_nil hempty).ne'] at hpages
    exact firstWrite_bytes hfresh h hsize hempty hmax hpages hdata

/-- The first write fails when the pages run out. -/
theorem ramfsWrite_short (h : NewFile s n) (hroom : s.fileDataCount < maxRamfsFiles) {size : UInt32}
    {length : ℕ} (hsize : size.toNat = length) (hmax : length ≤ maxFilePages * 4096)
    {i : ℕ} (hi : i < pagesTaken length) (hzero : answers (s.allocs + i) = 0) (data : ℕ → UInt8) :
    ∃ s', ramfsWrite answers s (some n) 0 size data = some (-1, s') := by
  have hnone : ((addBlock s n).fileDataPool s.fileDataCount).numPages.toNat = 0 := by
    rw [addBlock_new]
    rfl
  have hle : ((addBlock s n).fileDataPool s.fileDataCount).numPages.toNat ≤ maxFilePages :=
    hnone ▸ Nat.zero_le _
  have hout := writeFile_outcome answers n 0 size data hle
  rw [ramfsWrite_new h hroom]
  generalize writeFile answers (addBlock s n) n s.fileDataCount 0 size data = out at hout
  have hlast := toNat_endPage 0 size
  rw [hsize, UInt64.toNat_zero] at hlast
  unfold maxFilePages at hmax
  cases hout with
  | failed => exact ⟨_, rfl⟩
  | overrun hge hall =>
    have hempty : length = 0 := by
      rw [hlast, maxFilePages] at hge
      omega
    rw [hnone, Nat.sub_zero] at hall
    rw [pagesTaken, if_pos hempty] at hi
    exact absurd hzero (hall i hi)
  | extended hlt hall =>
    have hpos : length ≠ 0 := by
      rintro rfl
      rw [hlast, maxFilePages] at hlt
      omega
    rw [pagesTaken, if_neg hpos] at hi
    have hcount : (endPage 0 size).toNat = (length - 1) / 4096 := by
      rw [hlast]
      omega
    rw [hnone, Nat.sub_zero, hcount] at hall
    exact absurd hzero (hall i hi)

end stages

end Rhoudveine.Fs
