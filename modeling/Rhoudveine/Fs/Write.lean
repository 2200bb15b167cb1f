import Rhoudveine.Fs.Blocks

/-!
# The outcomes of `ramfs_write`

Once a file has its data block, a write fails in the allocation loop, stores a page
count beyond the pointers, or extends the file and copies the bytes.
-/

namespace Rhoudveine.Fs

variable {answers : ℕ → UInt64}

/-! ## Copying the bytes -/

theorem storeBytes_empty (s : Vfs) (n k : ℕ) (offset : UInt64) (data : ℕ → UInt8) :
    storeBytes s n k offset 0 data = some (0, raiseSize s n offset) := by
  simp [storeBytes, writeLoop]

theorem storeBytes_outside {s : Vfs} (n : ℕ) {k : ℕ} {offset : UInt64} (size : UInt32)
    (data : ℕ → UInt8)
    (hout : (s.fileDataPool k).numPages.toNat ≤ position offset / 4096) :
    storeBytes s n k offset size data = some (0, raiseSize s n offset) := by
  simp [storeBytes, writeLoop_outside data hout]

/-- The bytes of a write stored at their positions in the pages of block `k`. -/
def putBytes (s : Vfs) (k : ℕ) (offset : UInt64) (size : UInt32) (data : ℕ → UInt8) : Vfs :=
  let page := (s.fileDataPool k).frame
  { s with frames := Paged.write 4096 page s.frames (position offset) data size.toNat }

/-- A write inside the pages of its file. -/
theorem storeBytes_inside {s : Vfs} (n : ℕ) {k : ℕ} {offset : UInt64} {size : UInt32}
    (data : ℕ → UInt8) (hfile : (s.fileDataPool k).Backed)
    (hfit : position offset + size.toNat ≤ (s.fileDataPool k).numPages.toNat * 4096) :
    storeBytes s n k offset size data = some ((size.toNat : ℤ),
      raiseSize (putBytes s k offset size data) n (offset + size.toUInt64)) := by
  have hle := hfile.le
  have hsum : (0 : UInt32).toNat + size.toNat < 2 ^ 32 := by
    simpa using size.toNat_lt
  have hloop := writeLoop_inside hfile data s.frames (le_refl size.toNat) hsum hfit
  simp only [storeBytes, hloop, UInt32.zero_add, UInt32.toNat_zero, Nat.zero_add]
  rw [toInt_toInt32 (by omega)]
  rfl

/-! ## Raising the size -/

theorem raiseSize_fileDataPool (s : Vfs) (n : ℕ) (last : UInt64) :
    (raiseSize s n last).fileDataPool = s.fileDataPool := by
  unfold raiseSize
  dsimp only
  split <;> rfl

theorem raiseSize_frames (s : Vfs) (n : ℕ) (last : UInt64) :
    (raiseSize s n last).frames = s.frames := by
  unfold raiseSize
  dsimp only
  split <;> rfl

theorem raiseSize_gFds (s : Vfs) (n : ℕ) (last : UInt64) : (raiseSize s n last).gFds = s.gFds := by
  unfold raiseSize
  dsimp only
  split <;> rfl

theorem raiseSize_fileDataCount (s : Vfs) (n : ℕ) (last : UInt64) :
    (raiseSize s n last).fileDataCount = s.fileDataCount := by
  unfold raiseSize
  dsimp only
  split <;> rfl

theorem raiseSize_of_ne (s : Vfs) {n m : ℕ} (last : UInt64) (hm : m ≠ n) :
    (raiseSize s n last).ramfsNodePool m = s.ramfsNodePool m := by
  unfold raiseSize
  dsimp only
  split
  · exact Function.update_of_ne hm ..
  · rfl

theorem raiseSize_self (s : Vfs) (n : ℕ) (last : UInt64) :
    (raiseSize s n last).ramfsNodePool n =
      { s.ramfsNodePool n with
        size := if last > (s.ramfsNodePool n).size.toUInt64 then last.toUInt32
          else (s.ramfsNodePool n).size } := by
  unfold raiseSize
  dsimp only
  split
  · exact Function.update_self ..
  · rfl

theorem raiseSize_flags (s : Vfs) (n : ℕ) (last : UInt64) (m : ℕ) :
    ((raiseSize s n last).ramfsNodePool m).flags = (s.ramfsNodePool m).flags := by
  by_cases hm : m = n
  · subst hm
    rw [raiseSize_self]
  · rw [raiseSize_of_ne s last hm]

theorem raiseSize_ops (s : Vfs) (n : ℕ) (last : UInt64) (m : ℕ) :
    ((raiseSize s n last).ramfsNodePool m).ops = (s.ramfsNodePool m).ops := by
  by_cases hm : m = n
  · subst hm
    rw [raiseSize_self]
  · rw [raiseSize_of_ne s last hm]

theorem fileBlock_raiseSize {s : Vfs} {n m k : ℕ} {last : UInt64} :
    FileBlock (raiseSize s n last) m k ↔ FileBlock s m k := by
  by_cases hm : m = n
  · subst hm
    rw [FileBlock, raiseSize_self]
    rfl
  · rw [FileBlock, raiseSize_of_ne s last hm]
    rfl

theorem BlocksInv.raiseSize {s : Vfs} (h : BlocksInv answers s) {n k : ℕ} (hb : FileBlock s n k)
    {last : UInt64}
    (hlast : last > (s.ramfsNodePool n).size.toUInt64 →
      last.toUInt32.toNat ≤ (s.fileDataPool k).numPages.toNat * 4096) :
    BlocksInv answers (raiseSize s n last) := by
  unfold Fs.raiseSize
  dsimp only
  split
  · exact h.setSize hb (hlast ‹_›)
  · exact h

theorem raiseSize_same {s : Vfs} {n : ℕ} {last : UInt64}
    (h : last ≤ (s.ramfsNodePool n).size.toUInt64 ∨ last.toUInt32 = (s.ramfsNodePool n).size) :
    raiseSize s n last = s := by
  unfold raiseSize
  dsimp only
  split
  · rename_i hgt
    rcases h with hle | heq
    · exact absurd hgt (UInt64.not_lt.mpr hle)
    · simp [heq, Vfs.setNode]
  · rfl

/-- Storing bytes touches no block. -/
theorem storeBytes_keeps {s s' : Vfs} {n k : ℕ} {offset : UInt64} {size : UInt32}
    {data : ℕ → UInt8} {r : ℤ} (h : storeBytes s n k offset size data = some (r, s')) :
    s'.fileDataPool = s.fileDataPool ∧ ∀ m j, FileBlock s' m j ↔ FileBlock s m j := by
  unfold storeBytes at h
  split at h
  · cases h
  · obtain ⟨rfl, rfl⟩ := Prod.mk.inj (Option.some.inj h)
    exact ⟨raiseSize_fileDataPool .., fun m j => fileBlock_raiseSize⟩

/-! ## Outcomes -/

theorem setFile_self (s : Vfs) (k : ℕ) : s.setFile k (s.fileDataPool k) = s := by
  simp [Vfs.setFile]

/-- The page count that a write stores when its last page is beyond the pointers. -/
def overrun (answers : ℕ → UInt64) (s : Vfs) (k : ℕ) (last : UInt32) : Vfs :=
  let file := s.fileDataPool k
  let count := maxFilePages - file.numPages.toNat
  { s.setFile k { grow answers file file.numPages.toNat count s.allocs with
      numPages := last + 1 } with
    allocs := s.allocs + count }

/-- What `writeFile` can do to a file with at most 128 pages. -/
inductive WriteOutcome (answers : ℕ → UInt64) (s : Vfs) (n k : ℕ) (offset : UInt64)
    (size : UInt32) (data : ℕ → UInt8) : Option (ℤ × Vfs) → Prop
  | failed {i : ℕ} : (s.fileDataPool k).numPages.toNat + i ≤ (endPage offset size).toNat →
      (s.fileDataPool k).numPages.toNat + i < maxFilePages →
      (∀ j < i, answers (s.allocs + j) ≠ 0) → answers (s.allocs + i) = 0 →
      WriteOutcome answers s n k offset size data (some (-1,
        { s.setFile k (grow answers (s.fileDataPool k) (s.fileDataPool k).numPages.toNat i s.allocs)
          with allocs := s.allocs + i + 1 }))
  | overrun : maxFilePages ≤ (endPage offset size).toNat →
      (∀ i < maxFilePages - (s.fileDataPool k).numPages.toNat, answers (s.allocs + i) ≠ 0) →
      WriteOutcome answers s n k offset size data
        (storeBytes (overrun answers s k (endPage offset size)) n k offset size data)
  | extended : (endPage offset size).toNat < maxFilePages →
      (∀ i < (endPage offset size).toNat + 1 - (s.fileDataPool k).numPages.toNat,
        answers (s.allocs + i) ≠ 0) →
      WriteOutcome answers s n k offset size data
        (storeBytes (extend answers s k (endPage offset size)) n k offset size data)

theorem writeFile_outcome (answers : ℕ → UInt64) {s : Vfs} (n : ℕ) {k : ℕ} (offset : UInt64) (size : UInt32)
    (data : ℕ → UInt8) (hle : (s.fileDataPool k).numPages.toNat ≤ maxFilePages) :
    WriteOutcome answers s n k offset size data (writeFile answers s n k offset size data) := by
  have hrounds : 128 - (s.fileDataPool k).numPages.toNat ≤ maxFilePages := by
    unfold maxFilePages
    omega
  have halloc := allocPages_spec answers (endPage offset size) (s.fileDataPool k) s.allocs hle
    hrounds
  unfold writeFile
  dsimp only
  generalize allocPages answers (endPage offset size) maxFilePages (s.fileDataPool k).numPages
    (s.fileDataPool k) s.allocs = out at halloc
  unfold maxFilePages at hle
  cases halloc with
  | @failed i hi hbefore hzero =>
    exact .failed (by omega) (by unfold maxFilePages; omega) hbefore hzero
  | all hall =>
    have hgrow (first n allocs : ℕ) (file : FileData) :
        (grow answers file first n allocs).numPages = file.numPages := rfl
    rcases Nat.lt_or_ge (endPage offset size).toNat maxFilePages with hlast | hlast
    · have hcount : min ((endPage offset size).toNat + 1) 128 -
          (s.fileDataPool k).numPages.toNat =
          (endPage offset size).toNat + 1 - (s.fileDataPool k).numPages.toNat := by
        unfold maxFilePages at hlast
        omega
      rw [hcount] at hall ⊢
      have h : WriteOutcome answers s n k offset size data _ := .extended hlast hall
      by_cases hge : endPage offset size ≥ (s.fileDataPool k).numPages
      · simp only [extend, if_pos hge] at h
        simp only [hgrow, if_pos hge]
        exact h
      · simp only [extend, if_neg hge] at h
        simp only [hgrow, if_neg hge]
        exact h
    · have hcount : min ((endPage offset size).toNat + 1) 128 -
          (s.fileDataPool k).numPages.toNat =
          maxFilePages - (s.fileDataPool k).numPages.toNat := by
        unfold maxFilePages at hlast ⊢
        omega
      have hge : endPage offset size ≥ (s.fileDataPool k).numPages := by
        rw [ge_iff_le, UInt32.le_iff_toNat_le]
        unfold maxFilePages at hlast
        omega
      rw [hcount] at hall ⊢
      have h : WriteOutcome answers s n k offset size data _ := .overrun hlast hall
      simp only [overrun] at h
      simp only [hgrow, if_pos hge]
      exact h

end Rhoudveine.Fs
