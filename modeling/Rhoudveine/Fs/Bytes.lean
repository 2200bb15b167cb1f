import Rhoudveine.Fs.Write

/-!
# The bytes of a ramfs file

What a write inside the limits of a file does to the bytes of all files, as long as no
allocation fails.
-/

namespace Rhoudveine.Fs

variable {answers : ℕ → UInt64}

/-- Position `p` of the file `n` lies below its size and holds the byte `b`. -/
def Holds (s : Vfs) (n p : ℕ) (b : UInt8) : Prop :=
  ∃ k, FileBlock s n k ∧ p < (s.ramfsNodePool n).size.toNat ∧
    Paged.view 4096 (s.fileDataPool k).frame s.frames p = b

/-! ## The stages of a write -/

section stages

variable {s : Vfs} {n k : ℕ}

/-- Two pages in the same frame are the same page of the same file. -/
theorem BlocksSound.frame_inj (h : BlocksSound answers s) {n' k' i i' : ℕ}
    (hb : FileBlock s n k) (hb' : FileBlock s n' k')
    (hi : i < (s.fileDataPool k).numPages.toNat) (hi' : i' < (s.fileDataPool k').numPages.toNat)
    (heq : (s.fileDataPool k).frame i = (s.fileDataPool k').frame i') : n = n' ∧ i = i' := by
  have hf := (h.backed hb).page hi
  have hf' := (h.backed hb').page hi'
  rw [← heq] at hf'
  exact h.distinct n k i n' k' i' _ hb hb' (hi.trans_le (h.pages_le n k hb))
    (hi'.trans_le (h.pages_le n' k' hb')) hf hf'

theorem BlocksSound.page_lt (h : BlocksSound answers s) (hb : FileBlock s n k) {p : ℕ}
    (hp : p < (s.ramfsNodePool n).size.toNat) :
    p / 4096 < (s.fileDataPool k).numPages.toNat := by
  have := h.size_le n k hb
  omega

theorem Holds.addBlock {m p : ℕ} {b : UInt8} (hm : Holds s m p b) (h : BlocksInv answers s)
    (hnull : (s.ramfsNodePool n).fsData = .null) : Holds (addBlock s n) m p b := by
  obtain ⟨j, hb, hp, hview⟩ := hm
  have hmn : m ≠ n := by
    rintro rfl
    rw [hb.2] at hnull
    cases hnull
  have hj := Nat.ne_of_lt (h.block_lt m j hb)
  refine ⟨j, ?_, ?_, ?_⟩
  · rw [FileBlock, addBlock_node_of_ne hmn]
    exact hb
  · rw [addBlock_node_of_ne hmn]
    exact hp
  · rw [addBlock_old hj]
    exact hview

theorem Holds.extend {m p : ℕ} {b : UInt8} (hm : Holds s m p b) (h : BlocksSound answers s)
    (last : UInt32) : Holds (extend answers s k last) m p b := by
  obtain ⟨j, hb, hp, hview⟩ := hm
  refine ⟨j, hb, hp, ?_⟩
  have hpage := h.page_lt hb hp
  by_cases hjk : j = k
  · subst hjk
    have hframe : ((Fs.extend answers s j last).fileDataPool j).frame (p / 4096) =
        (s.fileDataPool j).frame (p / 4096) := by
      rw [FileData.frame, FileData.frame, extend_pages, if_neg (by omega)]
    rw [Paged.view, hframe]
    exact hview
  · rw [Paged.view, extend_other answers last hjk]
    exact hview

/-- The bytes of a write inside the pages are there. -/
theorem view_putBytes (h : BlocksSound answers s) (hb : FileBlock s n k) {offset : UInt64}
    {size : UInt32} (data : ℕ → UInt8)
    (hfit : position offset + size.toNat ≤ (s.fileDataPool k).numPages.toNat * 4096) {p : ℕ}
    (hp : p / 4096 < (s.fileDataPool k).numPages.toNat) :
    Paged.view 4096 (s.fileDataPool k).frame (putBytes s k offset size data).frames p =
      if position offset ≤ p ∧ p < position offset + size.toNat then data (p - position offset)
      else Paged.view 4096 (s.fileDataPool k).frame s.frames p := by
  refine Paged.view_write _ _ fun i hi heq => ?_
  exact (h.frame_inj hb hb (by omega) hp heq).2

/-- All other bytes stay, in this file and in the others. -/
theorem Holds.putBytes {m p : ℕ} {b : UInt8} (hm : Holds s m p b) (h : BlocksSound answers s)
    (hb : FileBlock s n k) {offset : UInt64} {size : UInt32} (data : ℕ → UInt8)
    (hfit : position offset + size.toNat ≤ (s.fileDataPool k).numPages.toNat * 4096)
    (hother : ¬ (m = n ∧ position offset ≤ p ∧ p < position offset + size.toNat)) :
    Holds (putBytes s k offset size data) m p b := by
  obtain ⟨j, hbm, hp, hview⟩ := hm
  refine ⟨j, hbm, hp, ?_⟩
  have hpage := h.page_lt hbm hp
  by_cases hmn : m = n
  · subst hmn
    obtain rfl : j = k := FsData.file.inj (hbm.2.symm.trans hb.2)
    exact (view_putBytes h hbm data hfit hpage).trans
      ((if_neg fun hin => hother ⟨rfl, hin⟩).trans hview)
  · have hframe : (Fs.putBytes s k offset size data).frames ((s.fileDataPool j).frame (p / 4096)) =
        s.frames ((s.fileDataPool j).frame (p / 4096)) := by
      refine Paged.write_of_ne _ _ fun i hi heq => hmn ?_
      exact (h.frame_inj hb hbm (by omega) hpage heq).1.symm
    change (Fs.putBytes s k offset size data).frames ((s.fileDataPool j).frame (p / 4096)) _ = b
    rw [hframe]
    exact hview

theorem Holds.raiseSize {m p : ℕ} {b : UInt8} (hm : Holds s m p b) {last : UInt64}
    (hlast : last.toNat < 2 ^ 32) : Holds (raiseSize s n last) m p b := by
  obtain ⟨j, hb, hp, hview⟩ := hm
  refine ⟨j, fileBlock_raiseSize.mpr hb, ?_, ?_⟩
  · by_cases hmn : m = n
    · subst hmn
      rw [raiseSize_self]
      dsimp only
      split
      · rename_i hgt
        have hgt := UInt64.lt_iff_toNat_lt.mp hgt
        rw [UInt32.toNat_toUInt64] at hgt
        rw [UInt64.toNat_toUInt32, Nat.mod_eq_of_lt hlast]
        exact hp.trans hgt
      · exact hp
    · rw [raiseSize_of_ne s last hmn]
      exact hp
  · rw [raiseSize_fileDataPool, raiseSize_frames]
    exact hview

theorem toNat_size_raiseSize {last : UInt64} (hlast : last.toNat < 2 ^ 32) :
    ((raiseSize s n last).ramfsNodePool n).size.toNat =
      max (s.ramfsNodePool n).size.toNat last.toNat := by
  rw [raiseSize_self]
  dsimp only
  by_cases hgt : last > (s.ramfsNodePool n).size.toUInt64
  · have hgt' := UInt64.lt_iff_toNat_lt.mp hgt
    rw [UInt32.toNat_toUInt64] at hgt'
    rw [if_pos hgt, UInt64.toNat_toUInt32, Nat.mod_eq_of_lt hlast]
    omega
  · have hgt' := mt UInt64.lt_iff_toNat_lt.mpr hgt
    rw [UInt32.toNat_toUInt64] at hgt'
    rw [if_neg hgt]
    omega

end stages

/-! ## Whole writes -/

theorem le_pages (n : ℕ) : n ≤ ((n - 1) / 4096 + 1) * 4096 := by omega

/-- What a write of `size` bytes at `offset` of the file `n` leaves behind. -/
structure Wrote (answers : ℕ → UInt64) (s : Vfs) (n offset size : ℕ) (data : ℕ → UInt8)
    (s' : Vfs) : Prop where
  blocks : BlocksInv answers s'
  block : ∃ k, FileBlock s' n k
  fds : s'.gFds = s.gFds
  flags : ∀ m, (s'.ramfsNodePool m).flags = (s.ramfsNodePool m).flags
  ops : ∀ m, (s'.ramfsNodePool m).ops = (s.ramfsNodePool m).ops
  size_self : (s'.ramfsNodePool n).size.toNat = max (s.ramfsNodePool n).size.toNat (offset + size)
  size_other : ∀ m ≠ n, (s'.ramfsNodePool m).size = (s.ramfsNodePool m).size
  written : ∀ i < size, Holds s' n (offset + i) (data i)
  kept : ∀ m p b, Holds s m p b → ¬ (m = n ∧ offset ≤ p ∧ p < offset + size) → Holds s' m p b
  /-- Every block is that of a file it was before, or the one of `n`. -/
  owner : ∀ k < s'.fileDataCount, (k < s.fileDataCount ∧
    ∀ m, FileBlock s m k → FileBlock s' m k) ∨ FileBlock s' n k

theorem Wrote.isFile_iff {s s' : Vfs} {n offset size : ℕ} {data : ℕ → UInt8}
    (h : Wrote answers s n offset size data s') (m : ℕ) : IsFile s' m ↔ IsFile s m := by
  rw [IsFile, IsFile, Node.isDir, Node.isDir, h.flags, h.ops]

/-- A write inside the limits to a file with block `k`. -/
theorem writeFile_inside {s : Vfs} {n k : ℕ} (h : BlocksInv answers s)
    (hfresh : FreshAnswers answers) (hb : FileBlock s n k) {offset : UInt64} {size : UInt32}
    (data : ℕ → UInt8) (hsize : size ≠ 0) (hfit : offset.toNat + size.toNat ≤ maxFilePages * 4096)
    (hnever : ∀ r s', writeFile answers s n k offset size data = some (r, s') →
      ∀ j, s.allocs ≤ j → j < s'.allocs → answers j ≠ 0) :
    ∃ s', writeFile answers s n k offset size data = some ((size.toNat : ℤ), s') ∧
      Wrote answers s n offset.toNat size.toNat data s' := by
  have hpos : size.toNat ≠ 0 := fun hzero => hsize (UInt32.toNat_inj.mp hzero)
  have hlast : (endPage offset size).toNat = (offset.toNat + size.toNat - 1) / 4096 := by
    rw [toNat_endPage]
    unfold maxFilePages at hfit
    omega
  have hposition : position offset = offset.toNat := by
    unfold position maxFilePages at *
    omega
  have hend : (offset + size.toUInt64).toNat = offset.toNat + size.toNat := by
    rw [UInt64.toNat_add, UInt32.toNat_toUInt64]
    unfold maxFilePages at hfit
    omega
  have hcover := le_pages (offset.toNat + size.toNat)
  have hout := writeFile_outcome answers n offset size data (h.pages_le n k hb)
  -- of the three outcomes only the extension is possible inside the limit
  generalize writeFile answers s n k offset size data = out at hout hnever
  cases hout with
  | failed _ _ _ hzero => exact absurd hzero (hnever _ _ rfl _ (by omega) (Nat.lt_succ_self _))
  | overrun hge =>
    unfold maxFilePages at hge hfit
    omega
  | extended hlt hall =>
    have hext := h.extend hfresh hb hlt hall
    have hnum := toNat_extend_numPages (s := s) (k := k) answers hlt
    have hbext : FileBlock (extend answers s k (endPage offset size)) n k := hb
    have hin : position offset + size.toNat ≤
        ((extend answers s k (endPage offset size)).fileDataPool k).numPages.toNat * 4096 := by
      rw [hnum, hlast, hposition]
      exact hcover.trans (Nat.mul_le_mul_right _ (Nat.le_max_right ..))
    rw [storeBytes_inside n data (hext.backed hbext) hin]
    refine ⟨_, rfl, ?_⟩
    have hsmall : (offset + size.toUInt64).toNat < 2 ^ 32 := by
      rw [hend]
      unfold maxFilePages at hfit
      omega
    have hput : BlocksInv answers
        (putBytes (extend answers s k (endPage offset size)) k offset size data) :=
      hext.setFrames _
    have hold (m p : ℕ) (b : UInt8) (hm : Holds s m p b) :
        Holds (extend answers s k (endPage offset size)) m p b := hm.extend h.toBlocksSound _
    refine
      { blocks := hput.raiseSize (n := n) hbext fun _ => ?_
        block := ⟨k, fileBlock_raiseSize.mpr hbext⟩
        fds := raiseSize_gFds ..
        flags := fun m => raiseSize_flags ..
        ops := fun m => raiseSize_ops ..
        size_self := (toNat_size_raiseSize hsmall).trans (by rw [hend]; rfl)
        size_other := fun m hm => by rw [raiseSize_of_ne _ _ hm]; rfl
        written := fun i hi => ?_
        kept := fun m p b hm hother => ?_
        owner := fun j hj => ?_ }
    · rw [UInt64.toNat_toUInt32, Nat.mod_eq_of_lt hsmall, hend, ← hposition]
      exact hin
    · have hpage : (offset.toNat + i) / 4096 <
          ((extend answers s k (endPage offset size)).fileDataPool k).numPages.toNat := by
        rw [hposition] at hin
        omega
      refine ⟨k, fileBlock_raiseSize.mpr hbext, ?_, ?_⟩
      · rw [toNat_size_raiseSize hsmall, hend]
        omega
      · rw [raiseSize_fileDataPool, raiseSize_frames]
        have hview := view_putBytes hext.toBlocksSound hbext data hin hpage
        rw [hposition, if_pos (by omega), Nat.add_sub_cancel_left] at hview
        exact hview
    · rw [← hposition] at hother
      exact ((hold m p b hm).putBytes hext.toBlocksSound hbext data hin hother).raiseSize hsmall
    · rw [raiseSize_fileDataCount] at hj
      exact Or.inl ⟨hj, fun m hm => fileBlock_raiseSize.mpr hm⟩

/-- A write inside the limits to any file. -/
theorem ramfsWrite_inside {s : Vfs} {n : ℕ} (h : BlocksInv answers s)
    (hfresh : FreshAnswers answers) (hdir : ¬ (s.ramfsNodePool n).isDir)
    (hroom : (s.ramfsNodePool n).fsData = .null → s.fileDataCount < maxRamfsFiles)
    {offset : UInt64} {size : UInt32} (data : ℕ → UInt8) (hsize : size ≠ 0)
    (hfit : offset.toNat + size.toNat ≤ maxFilePages * 4096)
    (hnever : ∀ r s', ramfsWrite answers s (some n) offset size data = some (r, s') →
      ∀ j, s.allocs ≤ j → j < s'.allocs → answers j ≠ 0) :
    ∃ s', ramfsWrite answers s (some n) offset size data = some ((size.toNat : ℤ), s') ∧
      Wrote answers s n offset.toNat size.toNat data s' := by
  have hens := ensureFileData_cases h hdir
  generalize hout : ensureFileData s n (s.ramfsNodePool n).fsData = out at hens
  cases hens with
  -- the node has its block already
  | @had k hdata =>
    have hwrite : ramfsWrite answers s (some n) offset size data =
        writeFile answers s n k offset size data := by
      simp [ramfsWrite, hdir, hout]
    rw [hwrite] at hnever ⊢
    exact writeFile_inside h hfresh ⟨hdir, hdata⟩ data hsize hfit hnever
  -- the node gets block `fileDataCount`, which nobody owned
  | added hnull _ =>
    have hwrite : ramfsWrite answers s (some n) offset size data =
        writeFile answers (addBlock s n) n s.fileDataCount offset size data := by
      simp [ramfsWrite, hdir, hout]
    rw [hwrite] at hnever ⊢
    obtain ⟨s', heq, hw⟩ := writeFile_inside (h.addBlock hdir hnull) hfresh
      (fileBlock_addBlock hdir) data hsize hfit hnever
    have hnode {α : Type} (f : Node → α) (hf : ∀ node data, f { node with fsData := data } = f node)
        (m : ℕ) : f ((addBlock s n).ramfsNodePool m) = f (s.ramfsNodePool m) := by
      by_cases hmn : m = n
      · subst hmn
        rw [addBlock_node, hf]
      · rw [addBlock_node_of_ne hmn]
    have hsize (m : ℕ) := hnode Node.size (fun _ _ => rfl) m
    refine ⟨s', heq, { hw with
      flags := fun m => (hw.flags m).trans (hnode Node.flags (fun _ _ => rfl) m)
      ops := fun m => (hw.ops m).trans (hnode Node.ops (fun _ _ => rfl) m)
      size_self := by rw [hw.size_self, hsize]
      size_other := fun m hm => (hw.size_other m hm).trans (hsize m)
      kept := fun m p b hm hother => hw.kept m p b (hm.addBlock h hnull) hother
      owner := fun j hj => ?_ }⟩
    rcases hw.owner j hj with ⟨hlt, hkeep⟩ | hn
    · rcases Nat.lt_succ_iff_lt_or_eq.mp hlt with hlt | rfl
      · refine Or.inl ⟨hlt, fun m hm => hkeep m ?_⟩
        have hmn : m ≠ n := by
          rintro rfl
          rw [hm.2] at hnull
          cases hnull
        rw [FileBlock, addBlock_node_of_ne hmn]
        exact hm
      · exact Or.inr (hkeep n (fileBlock_addBlock hdir))
    · exact Or.inr hn
  | full hnull hfull => exact absurd (hroom hnull) (Nat.not_lt.mpr hfull)

/-- What a read of a file returns when its blocks are sound. -/
theorem ramfsRead_holds {s : Vfs} {n : ℕ} (h : BlocksInv answers s)
    (hdir : ¬ (s.ramfsNodePool n).isDir) (offset : UInt64) (size : UInt32) :
    ∃ buffer : List UInt8, ramfsRead s (some n) offset size = some ((buffer.length : ℤ), buffer) ∧
      buffer.length = min size.toNat ((s.ramfsNodePool n).size.toNat - offset.toNat) ∧
      ∀ i < buffer.length, ∀ b, Holds s n (offset.toNat + i) b → buffer[i]? = some b := by
  cases hdata : (s.ramfsNodePool n).fsData with
  | dir d => exact absurd hdata (h.file_data n d hdir)
  | null =>
    refine ⟨[], by simp [ramfsRead, hdir, hdata], ?_, fun i hi => absurd hi (Nat.not_lt_zero i)⟩
    rw [h.no_block n hdir hdata]
    simp
  | file k =>
    have hb : FileBlock s n k := ⟨hdir, hdata⟩
    have hread := ramfsRead_file hdir hdata (h.backed hb) (h.size_le n k hb) offset size
    refine ⟨(List.range (min size.toNat ((s.ramfsNodePool n).size.toNat - offset.toNat))).map
      fun i => Paged.view 4096 (s.fileDataPool k).frame s.frames (offset.toNat + i), ?_, ?_, ?_⟩
    · rw [List.length_map, List.length_range]
      exact hread
    · rw [List.length_map, List.length_range]
    · rintro i hi b ⟨j, hbj, -, hview⟩
      obtain rfl : j = k := FsData.file.inj (hbj.2.symm.trans hdata)
      rw [List.length_map, List.length_range] at hi
      rw [List.getElem?_map, List.getElem?_range hi, Option.map_some, hview]

end Rhoudveine.Fs
