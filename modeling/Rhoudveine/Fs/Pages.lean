import Rhoudveine.Fs.Ramfs

/-!
# The loops of ramfs

What the allocation, write and read loops compute, in terms of the positions of a
file laid out over its pages.
-/

namespace Rhoudveine.Fs

variable {answers : ℕ → UInt64}

/-! ## Page arithmetic -/

theorem toNat_endPage (offset : UInt64) (size : UInt32) :
    (endPage offset size).toNat =
      (offset.toNat + size.toNat + (2 ^ 64 - 1)) % 2 ^ 64 / 4096 % 2 ^ 32 := by
  have hsize : (offset + size.toUInt64 - 1).toNat =
      (offset.toNat + size.toNat + (2 ^ 64 - 1)) % 2 ^ 64 := by
    rw [UInt64.toNat_sub, UInt64.toNat_add, UInt32.toNat_toUInt64, UInt64.toNat_one]
    omega
  rw [endPage, UInt64.toNat_toUInt32, UInt64.toNat_div, hsize]
  rfl

/-- A file position is the offset modulo 2^44: 2^32 pages of 4096 bytes. -/
def position (offset : UInt64) : ℕ := offset.toNat % 2 ^ 44

theorem toNat_pageIdx (offset : UInt64) : (pageIdx offset).toNat = position offset / 4096 := by
  rw [pageIdx, UInt64.toNat_toUInt32, UInt64.toNat_div, position]
  change offset.toNat / 4096 % 2 ^ 32 = _
  omega

theorem toNat_pageOffset (offset : UInt64) :
    (pageOffset offset).toNat = position offset % 4096 := by
  rw [pageOffset, UInt64.toNat_toUInt32, UInt64.toNat_mod, position]
  change offset.toNat % 4096 % 2 ^ 32 = _
  omega

theorem toNat_chunk (offset : UInt64) (remaining : UInt32) :
    (chunk offset remaining).toNat = min (4096 - position offset % 4096) remaining.toNat := by
  have hsub : (4096 - pageOffset offset).toNat = 4096 - position offset % 4096 := by
    rw [UInt32.toNat_sub, toNat_pageOffset]
    change (2 ^ 32 - position offset % 4096 + 4096) % 2 ^ 32 = _
    omega
  unfold chunk
  by_cases h : 4096 - pageOffset offset < remaining
  · have := UInt32.lt_iff_toNat_lt.mp h
    rw [if_pos h, hsub]
    omega
  · have := mt UInt32.lt_iff_toNat_lt.mpr h
    rw [if_neg h]
    omega

theorem toNat_sub_chunk (offset : UInt64) (remaining : UInt32) :
    (remaining - chunk offset remaining).toNat =
      remaining.toNat - (chunk offset remaining).toNat := by
  have hn := toNat_chunk offset remaining
  rw [UInt32.toNat_sub_of_le]
  exact UInt32.le_iff_toNat_le.mpr (by omega)

theorem toNat_add_chunk (offset : UInt64) {count remaining : UInt32}
    (h : count.toNat + remaining.toNat < 2 ^ 32) :
    (count + chunk offset remaining).toNat = count.toNat + (chunk offset remaining).toNat := by
  have hn := toNat_chunk offset remaining
  rw [UInt32.toNat_add]
  omega

/-- Moving on by a few bytes inside the file. -/
theorem position_add (offset : UInt64) (n : UInt32) (h : position offset + n.toNat < 2 ^ 44) :
    position (offset + n.toUInt64) = position offset + n.toNat := by
  unfold position at h ⊢
  rw [UInt64.toNat_add, UInt32.toNat_toUInt64]
  omega

/-! ## Allocation -/

/-- Pages `first, …, first + n - 1` are the answers from number `allocs` on. -/
def grow (answers : ℕ → UInt64) (file : FileData) (first n allocs : ℕ) : FileData :=
  { file with
    pages := fun i =>
      if first ≤ i ∧ i < first + n then some (answers (allocs + (i - first))) else file.pages i }

theorem grow_zero (file : FileData) (first allocs : ℕ) : grow answers file first 0 allocs = file := by
  have hpages : (grow answers file first 0 allocs).pages = file.pages := by
    funext i
    exact if_neg (by omega)
  cases file
  simp only [grow] at hpages ⊢
  rw [hpages]

/-- One page, then the others. -/
theorem grow_succ (file : FileData) (first n allocs : ℕ) :
    grow answers { file with pages := Function.update file.pages first (some (answers allocs)) }
        (first + 1) n (allocs + 1) = grow answers file first (n + 1) allocs := by
  simp only [grow, FileData.mk.injEq, and_true]
  funext i
  rcases Nat.lt_trichotomy i first with hlt | rfl | hgt
  · rw [if_neg (by omega), if_neg (by omega), Function.update_of_ne (by omega)]
  · rw [if_neg (by omega), if_pos (by omega), Function.update_self, Nat.sub_self, Nat.add_zero]
  · by_cases hi : i < first + 1 + n
    · rw [if_pos (by omega), if_pos (by omega)]
      congr 2
      omega
    · rw [if_neg (by omega), if_neg (by omega), Function.update_of_ne (by omega)]

/-- The outcomes of allocating pages up to `endPage`, at most 128 in all. -/
inductive Allocated (answers : ℕ → UInt64) (file : FileData) (first count allocs : ℕ) :
    Bool × FileData × ℕ → Prop
  | all : (∀ i < count, answers (allocs + i) ≠ 0) →
      Allocated answers file first count allocs
        (true, grow answers file first count allocs, allocs + count)
  | failed {i : ℕ} : i < count → (∀ j < i, answers (allocs + j) ≠ 0) → answers (allocs + i) = 0 →
      Allocated answers file first count allocs
        (false, grow answers file first i allocs, allocs + i + 1)

theorem allocPages_spec (answers : ℕ → UInt64) (last : UInt32) {rounds : ℕ} {first : UInt32} (file : FileData)
    (allocs : ℕ) (hfirst : first.toNat ≤ 128) (hrounds : 128 - first.toNat ≤ rounds) :
    Allocated answers file first.toNat (min (last.toNat + 1) 128 - first.toNat) allocs
      (allocPages answers last rounds first file allocs) := by
  induction rounds generalizing first file allocs with
  | zero =>
    have hcount : min (last.toNat + 1) 128 - first.toNat = 0 := by omega
    rw [hcount]
    have h : Allocated answers file first.toNat 0 allocs _ := .all (by omega)
    rwa [grow_zero] at h
  | succ rounds ih =>
    by_cases hgo : first ≤ last ∧ first < 128
    · have hle := UInt32.le_iff_toNat_le.mp hgo.1
      have hlt : first.toNat < 128 := UInt32.lt_iff_toNat_lt.mp hgo.2
      obtain ⟨count, hcount⟩ : ∃ count, min (last.toNat + 1) 128 - first.toNat = count + 1 :=
        ⟨min (last.toNat + 1) 128 - first.toNat - 1, by omega⟩
      rw [hcount, allocPages, if_pos hgo]
      by_cases hzero : answers allocs = 0
      · simp only [if_pos hzero]
        have h : Allocated answers file first.toNat (count + 1) allocs _ :=
          .failed (Nat.succ_pos count) (by omega) hzero
        rwa [grow_zero] at h
      · -- the page is taken, and the rest of the loop runs from the next one
        simp only [if_neg hzero]
        have hnext : (first + 1).toNat = first.toNat + 1 := by
          rw [UInt32.toNat_add, UInt32.toNat_one]
          omega
        have h := @ih (first + 1)
          { file with pages := Function.update file.pages first.toNat (some (answers allocs)) }
          (allocs + 1) (by omega) (by omega)
        rw [hnext, show min (last.toNat + 1) 128 - (first.toNat + 1) = count by omega] at h
        generalize allocPages answers last rounds (first + 1)
          { file with pages := Function.update file.pages first.toNat (some (answers allocs)) }
          (allocs + 1) = out at h
        cases h with
        | all hall =>
          rw [grow_succ, Nat.add_assoc, Nat.add_comm 1]
          refine .all fun i hi => ?_
          cases i with
          | zero => exact hzero
          | succ i =>
            have := hall i (by omega)
            rwa [Nat.add_assoc, Nat.add_comm 1] at this
        | @failed i hi hbefore hfail =>
          rw [grow_succ, show allocs + 1 + i + 1 = allocs + (i + 1) + 1 by omega]
          refine .failed (i := i + 1) (by omega) (fun j hj => ?_) ?_
          · cases j with
            | zero => exact hzero
            | succ j =>
              have := hbefore j (by omega)
              rwa [Nat.add_assoc, Nat.add_comm 1] at this
          · rwa [Nat.add_assoc, Nat.add_comm 1] at hfail
    · have hcount : min (last.toNat + 1) 128 - first.toNat = 0 := by
        by_contra hne
        refine hgo ⟨UInt32.le_iff_toNat_le.mpr (by omega), UInt32.lt_iff_toNat_lt.mpr ?_⟩
        change first.toNat < 128
        omega
      rw [hcount, allocPages, if_neg hgo]
      have h : Allocated answers file first.toNat 0 allocs _ := .all (by omega)
      rwa [grow_zero] at h

/-! ## Copying -/

/-- The frame of a page; only used for pages that are there. -/
def FileData.frame (file : FileData) (i : ℕ) : UInt64 := (file.pages i).getD 0

/-- The first `numPages` pages of a file are there, and they are at most 128. -/
structure FileData.Backed (file : FileData) : Prop where
  le : file.numPages.toNat ≤ 128
  pages : ∀ i < file.numPages.toNat, (file.pages i).isSome

theorem FileData.Backed.page {file : FileData} (h : file.Backed) {i : ℕ}
    (hi : i < file.numPages.toNat) : file.pages i = some (file.frame i) := by
  obtain ⟨f, hf⟩ := Option.isSome_iff_exists.mp (h.pages i hi)
  rw [hf, FileData.frame, hf, Option.getD_some]

/-- A write inside the pages writes everything. -/
theorem writeLoop_inside {file : FileData} (hfile : file.Backed) (data : ℕ → UInt8) {rounds : ℕ}
    {written remaining : UInt32} {offset : UInt64} (frames : UInt64 → ℕ → UInt8)
    (hrounds : remaining.toNat ≤ rounds) (hsum : written.toNat + remaining.toNat < 2 ^ 32)
    (hfit : position offset + remaining.toNat ≤ file.numPages.toNat * 4096) :
    writeLoop file data rounds written remaining offset frames =
      some (written + remaining, Paged.write 4096 file.frame frames (position offset)
        (fun i => data (written.toNat + i)) remaining.toNat) := by
  induction rounds generalizing written remaining offset frames with
  | zero =>
    have hzero : remaining = 0 := UInt32.toNat_inj.mp (Nat.le_zero.mp hrounds)
    subst hzero
    simp [writeLoop, Paged.write]
  | succ rounds ih =>
    by_cases hzero : remaining = 0
    · subst hzero
      simp [writeLoop, Paged.write]
    · have hpos : remaining.toNat ≠ 0 := fun h => hzero (UInt32.toNat_inj.mp h)
      have hle := hfile.le
      have hn := toNat_chunk offset remaining
      have hpage : position offset / 4096 < file.numPages.toNat := by omega
      have hlt : ¬ pageIdx offset ≥ file.numPages := by
        rw [ge_iff_le, UInt32.le_iff_toNat_le, toNat_pageIdx]
        omega
      have hbound : ¬ (pageIdx offset).toNat ≥ maxFilePages := by
        rw [toNat_pageIdx, maxFilePages]
        omega
      have hframe := hfile.page hpage
      rw [← toNat_pageIdx] at hframe
      have hwritten := toNat_add_chunk offset hsum
      have hremaining := toNat_sub_chunk offset remaining
      have hmove := position_add offset (chunk offset remaining) (by omega)
      rw [writeLoop, if_neg hzero]
      simp only [if_neg hlt, if_neg hbound, hframe]
      -- one chunk and the rest are one paged write
      rw [ih _ (by omega) (by omega) (by omega), hmove, hremaining, hwritten]
      have hchunk : Paged.copyIn frames (file.frame (pageIdx offset).toNat)
          (pageOffset offset).toNat (chunk offset remaining).toNat
          (fun i => data (written.toNat + i)) =
          Paged.write 4096 file.frame frames (position offset)
            (fun i => data (written.toNat + i)) (chunk offset remaining).toNat := by
        rw [toNat_pageIdx, toNat_pageOffset]
        exact Paged.copyIn_eq_write _ _ _ (by omega)
      have hsplit : remaining.toNat = (chunk offset remaining).toNat +
          (remaining.toNat - (chunk offset remaining).toNat) := by omega
      have hdata : (fun i => data (written.toNat + (chunk offset remaining).toNat + i)) =
          fun i => data (written.toNat + ((chunk offset remaining).toNat + i)) := by
        funext i
        rw [Nat.add_assoc]
      rw [hchunk, hdata]
      refine congrArg some (Prod.ext ?_ ?_)
      · apply UInt32.toNat_inj.mp
        rw [UInt32.toNat_add, hwritten, hremaining, UInt32.toNat_add]
        omega
      · conv_rhs => rw [hsplit, Paged.write_add]

/-- A write that starts behind the pages writes nothing. -/
theorem writeLoop_outside {file : FileData} (data : ℕ → UInt8) {rounds : ℕ}
    {written remaining : UInt32} {offset : UInt64} {frames : UInt64 → ℕ → UInt8}
    (hout : file.numPages.toNat ≤ position offset / 4096) :
    writeLoop file data rounds written remaining offset frames = some (written, frames) := by
  have hge : pageIdx offset ≥ file.numPages := by
    rw [ge_iff_le, UInt32.le_iff_toNat_le, toNat_pageIdx]
    exact hout
  cases rounds with
  | zero => rfl
  | succ rounds =>
    by_cases hzero : remaining = 0
    · simp [writeLoop, hzero]
    · simp [writeLoop, hzero, hge]

/-- A read inside the file reads everything it asks for. -/
theorem readLoop_inside {file : FileData} (hfile : file.Backed) {fileSize : UInt32}
    (frames : UInt64 → ℕ → UInt8) {rounds : ℕ} {readCount remaining : UInt32} {offset : UInt64}
    (buffer : List UInt8) (hrounds : remaining.toNat ≤ rounds)
    (hsum : readCount.toNat + remaining.toNat < 2 ^ 32)
    (hfit : offset.toNat + remaining.toNat ≤ fileSize.toNat)
    (hsize : fileSize.toNat ≤ file.numPages.toNat * 4096) :
    readLoop file fileSize frames rounds readCount remaining offset buffer =
      some (readCount + remaining, buffer ++ (List.range remaining.toNat).map fun i =>
        Paged.view 4096 file.frame frames (offset.toNat + i)) := by
  induction rounds generalizing readCount remaining offset buffer with
  | zero =>
    have hzero : remaining = 0 := UInt32.toNat_inj.mp (Nat.le_zero.mp hrounds)
    subst hzero
    simp [readLoop]
  | succ rounds ih =>
    by_cases hzero : remaining = 0
    · subst hzero
      simp [readLoop]
    · have hpos : remaining.toNat ≠ 0 := fun h => hzero (UInt32.toNat_inj.mp h)
      have hle := hfile.le
      have hn := toNat_chunk offset remaining
      have hposition : position offset = offset.toNat := Nat.mod_eq_of_lt (by omega)
      rw [hposition] at hn
      have hgo : remaining > 0 ∧ offset < fileSize.toUInt64 := by
        refine ⟨UInt32.lt_iff_toNat_lt.mpr (Nat.pos_of_ne_zero hpos), ?_⟩
        rw [UInt64.lt_iff_toNat_lt, UInt32.toNat_toUInt64]
        omega
      have hpage : offset.toNat / 4096 < file.numPages.toNat := by omega
      have hidx : (pageIdx offset).toNat = offset.toNat / 4096 := by
        rw [toNat_pageIdx, hposition]
      have hlt : ¬ pageIdx offset ≥ file.numPages := by
        rw [ge_iff_le, UInt32.le_iff_toNat_le, hidx]
        omega
      have hbound : ¬ (pageIdx offset).toNat ≥ maxFilePages := by
        rw [hidx, maxFilePages]
        omega
      have hframe := hfile.page hpage
      rw [← hidx] at hframe
      have hread := toNat_add_chunk offset hsum
      have hremaining := toNat_sub_chunk offset remaining
      have hoffset : (offset + (chunk offset remaining).toUInt64).toNat =
          offset.toNat + (chunk offset remaining).toNat := by
        rw [UInt64.toNat_add, UInt32.toNat_toUInt64]
        omega
      rw [readLoop, if_pos hgo]
      simp only [if_neg hlt, if_neg hbound, hframe]
      rw [ih _ (by omega) (by omega) (by omega), hremaining, hoffset]
      -- the cells of the chunk are those at its positions
      have hchunk : ((List.range (chunk offset remaining).toNat).map fun i =>
          frames (file.frame (pageIdx offset).toNat) ((pageOffset offset).toNat + i)) =
          (List.range (chunk offset remaining).toNat).map fun i =>
            Paged.view 4096 file.frame frames (offset.toNat + i) := by
        refine List.map_congr_left fun i hi => ?_
        have hi := List.mem_range.mp hi
        rw [Paged.view, hidx, toNat_pageOffset, hposition]
        congr 2 <;> omega
      have hsplit : remaining.toNat = (chunk offset remaining).toNat +
          (remaining.toNat - (chunk offset remaining).toNat) := by omega
      rw [hchunk]
      refine congrArg some (Prod.ext ?_ ?_)
      · apply UInt32.toNat_inj.mp
        rw [UInt32.toNat_add, hread, hremaining, UInt32.toNat_add]
        omega
      · conv_rhs => rw [hsplit, List.range_add, List.map_append, List.map_map]
        rw [List.append_assoc]
        simp only [Function.comp_def, Nat.add_assoc]

theorem toInt_toInt32 {n : UInt32} (h : n.toNat < 2 ^ 31) : n.toInt32.toInt = n.toNat := by
  rw [UInt32.toInt32, Int32.toInt, BitVec.toInt_eq_toNat_of_lt]
  · rfl
  · change 2 * n.toNat < 2 ^ 32
    omega

/-- The number of bytes `ramfs_read` asks its loop for. -/
theorem toNat_clip {offset : UInt64} {size fileSize : UInt32} (h : ¬ offset ≥ fileSize.toUInt64) :
    (if offset + size.toUInt64 > fileSize.toUInt64 then (fileSize.toUInt64 - offset).toUInt32
      else size).toNat = min size.toNat (fileSize.toNat - offset.toNat) := by
  have hsize := fileSize.toNat_lt
  have hsize64 : fileSize.toUInt64.toNat = fileSize.toNat := UInt32.toNat_toUInt64 _
  have hlt := UInt64.lt_iff_toNat_lt.mp (UInt64.not_le.mp h)
  have hadd : (offset + size.toUInt64).toNat = offset.toNat + size.toNat := by
    rw [UInt64.toNat_add, UInt32.toNat_toUInt64]
    have := size.toNat_lt
    omega
  by_cases hover : offset + size.toUInt64 > fileSize.toUInt64
  · have hover' := UInt64.lt_iff_toNat_lt.mp hover
    rw [if_pos hover, UInt64.toNat_toUInt32, UInt64.toNat_sub_of_le _ _
      (UInt64.le_of_lt (UInt64.not_le.mp h)), hsize64]
    omega
  · have hover' := mt UInt64.lt_iff_toNat_lt.mpr hover
    rw [if_neg hover]
    omega

/-- What `ramfs_read` returns for a file whose size its pages cover. -/
theorem ramfsRead_file {s : Vfs} {n k : ℕ} (hdir : ¬ (s.ramfsNodePool n).isDir)
    (hdata : (s.ramfsNodePool n).fsData = .file k) (hfile : (s.fileDataPool k).Backed)
    (hsize : (s.ramfsNodePool n).size.toNat ≤ (s.fileDataPool k).numPages.toNat * 4096)
    (offset : UInt64) (size : UInt32) :
    let count := min size.toNat ((s.ramfsNodePool n).size.toNat - offset.toNat)
    ramfsRead s (some n) offset size = some ((count : ℤ), (List.range count).map fun i =>
      Paged.view 4096 (s.fileDataPool k).frame s.frames (offset.toNat + i)) := by
  intro count
  have hle := hfile.le
  have hsize64 : (s.ramfsNodePool n).size.toUInt64.toNat = (s.ramfsNodePool n).size.toNat :=
    UInt32.toNat_toUInt64 _
  simp only [ramfsRead, if_neg hdir, hdata]
  by_cases hend : offset ≥ (s.ramfsNodePool n).size.toUInt64
  · have hcount : count = 0 := by
      have := UInt64.le_iff_toNat_le.mp hend
      omega
    simp [hend, hcount]
  · have hlt : offset.toNat < (s.ramfsNodePool n).size.toNat := by
      have := UInt64.lt_iff_toNat_lt.mp (UInt64.not_le.mp hend)
      omega
    rw [if_neg hend]
    have hclip : (if offset + size.toUInt64 > (s.ramfsNodePool n).size.toUInt64 then
        ((s.ramfsNodePool n).size.toUInt64 - offset).toUInt32 else size).toNat = count :=
      toNat_clip hend
    generalize (if offset + size.toUInt64 > (s.ramfsNodePool n).size.toUInt64 then
      ((s.ramfsNodePool n).size.toUInt64 - offset).toUInt32 else size) = clipped at hclip
    have hsmall : clipped.toNat ≤ 128 * 4096 := by omega
    have hsum : (0 : UInt32).toNat + clipped.toNat < 2 ^ 32 := by
      simp
      omega
    have hend : offset.toNat + clipped.toNat ≤ (s.ramfsNodePool n).size.toNat := by omega
    have hloop := readLoop_inside hfile s.frames [] (le_refl clipped.toNat) hsum hend hsize
    rw [hloop]
    simp only [UInt32.zero_add, List.nil_append]
    rw [toInt_toInt32 (by omega), hclip]

end Rhoudveine.Fs
