import Rhoudveine.Fs.Write
import Rhoudveine.Fs.Setup

/-!
# Writes at the limits of a ramfs file

`ramfs_write` bounds its allocation loop by the 128 page pointers, but not the page
count it stores afterwards, and it counts back one byte from the end of a write even
if there is none.  A sequence of writes keeps the data blocks sound exactly when every
one of them keeps away from these corners.
-/

namespace Rhoudveine.Fs

variable {answers : ℕ → UInt64}

/-! ## Writes and what they should keep -/

structure WriteCall where
  node : Option ℕ
  offset : UInt64
  size : UInt32
  data : ℕ → UInt8

/-- One call of `ramfs_write`; `none` if it reads a page pointer out of bounds. -/
def writeStep (answers : ℕ → UInt64) (s : Vfs) (c : WriteCall) : Option Vfs :=
  (ramfsWrite answers s c.node c.offset c.size c.data).map Prod.snd

/-- A call stays within the page pointers, leaves all blocks sound, and if it writes
nothing or fails, the file reads as before. -/
def WriteSound (answers : ℕ → UInt64) (s : Vfs) (c : WriteCall) : Prop :=
  ∃ r s', ramfsWrite answers s c.node c.offset c.size c.data = some (r, s') ∧
    BlocksSound answers s' ∧
    (c.size = 0 ∨ r = -1 → ∀ offset size,
      ramfsRead s' c.node offset size = ramfsRead s c.node offset size)

/-! ## The condition -/

/-- The page count of a file, 0 before its first write. -/
def filePages (s : Vfs) (n : ℕ) : ℕ :=
  match (s.ramfsNodePool n).fsData with
  | .file k => (s.fileDataPool k).numPages.toNat
  | _ => 0

/-- The size a write leaves is covered by `pages` pages: an empty write does not move it,
and a write that starts behind its own last page (it wraps around at 2^44) sets it to
the low half of its offset. -/
def SizeFits (s : Vfs) (n pages : ℕ) (c : WriteCall) : Prop :=
  if c.size = 0 then
    c.offset ≤ (s.ramfsNodePool n).size.toUInt64 ∨ c.offset.toUInt32 = (s.ramfsNodePool n).size
  else
    (pageIdx c.offset).toNat ≤ (endPage c.offset c.size).toNat ∨
      c.offset.toUInt32.toNat ≤ pages * 4096

/-- A write to a file of `pages` pages needs no new page; or the first page it needs
cannot be allocated; or it is not empty, ends below page 128 and all its pages can be. -/
def BlockOk (answers : ℕ → UInt64) (s : Vfs) (n pages : ℕ) (c : WriteCall) : Prop :=
  let last := (endPage c.offset c.size).toNat
  (last < pages ∧ SizeFits s n pages c) ∨
    (pages ≤ last ∧ pages < maxFilePages ∧ answers s.allocs = 0) ∨
    (pages ≤ last ∧ last < maxFilePages ∧ c.size ≠ 0 ∧
      (∀ i ≤ last - pages, answers (s.allocs + i) ≠ 0) ∧ SizeFits s n (last + 1) c)

/-- The condition on a call, for files that have or can get a data block. -/
def WriteOk (answers : ℕ → UInt64) (s : Vfs) (c : WriteCall) : Prop :=
  ∀ n, c.node = some n → ¬ (s.ramfsNodePool n).isDir →
    ((s.ramfsNodePool n).fsData = .null → s.fileDataCount < maxRamfsFiles) →
    BlockOk answers s n (filePages s n) c

/-! ## Arithmetic -/

theorem position_of_le_endPage {offset : UInt64} {size : UInt32} (hsize : size ≠ 0)
    (hle : (pageIdx offset).toNat ≤ (endPage offset size).toNat) :
    position offset + size.toNat ≤ ((endPage offset size).toNat + 1) * 4096 := by
  have hpos : size.toNat ≠ 0 := fun h => hsize (UInt32.toNat_inj.mp h)
  have := size.toNat_lt
  have := offset.toNat_lt
  rw [toNat_pageIdx] at hle
  rw [toNat_endPage] at hle ⊢
  unfold position at *
  omega

theorem wraps_of_endPage_lt {offset : UInt64} {size : UInt32} (hsize : size ≠ 0)
    (hlast : (endPage offset size).toNat < maxFilePages)
    (hlt : (endPage offset size).toNat < (pageIdx offset).toNat) :
    maxFilePages ≤ position offset / 4096 ∧ 2 ^ 32 ≤ offset.toNat := by
  have hpos : size.toNat ≠ 0 := fun h => hsize (UInt32.toNat_inj.mp h)
  have := size.toNat_lt
  have := offset.toNat_lt
  rw [toNat_pageIdx] at hlt
  rw [toNat_endPage] at hlt hlast
  unfold position maxFilePages at *
  omega

/-- An empty write to a low page lies just behind that page's start. -/
theorem endPage_zero {offset : UInt64} (hlast : (endPage offset 0).toNat < maxFilePages) :
    (endPage offset 0).toNat * 4096 < offset.toUInt32.toNat ∧
      offset.toUInt32.toNat ≤ ((endPage offset 0).toNat + 1) * 4096 ∧
      offset.toUInt32.toNat ≤ offset.toNat := by
  have := offset.toNat_lt
  rw [toNat_endPage] at hlast ⊢
  rw [UInt64.toNat_toUInt32]
  unfold maxFilePages at hlast
  simp only [UInt32.toNat_zero, Nat.add_zero] at hlast ⊢
  omega

theorem toNat_end {offset : UInt64} {size : UInt32}
    (hfit : position offset + size.toNat ≤ maxFilePages * 4096) :
    (offset + size.toUInt64).toUInt32.toNat = position offset + size.toNat := by
  unfold position maxFilePages at *
  rw [UInt64.toNat_toUInt32, UInt64.toNat_add, UInt32.toNat_toUInt64]
  omega

/-! ## Files with a block -/

section block

variable {s : Vfs} {n k : ℕ}

/-- Without a new page nothing is extended. -/
theorem extend_of_lt (answers : ℕ → UInt64) {last : UInt32}
    (h : last.toNat < (s.fileDataPool k).numPages.toNat) : extend answers s k last = s := by
  have hlt : ¬ last ≥ (s.fileDataPool k).numPages := by
    rw [ge_iff_le, UInt32.le_iff_toNat_le]
    omega
  have hcount : last.toNat + 1 - (s.fileDataPool k).numPages.toNat = 0 := by omega
  simp only [extend, if_neg hlt, hcount, grow_zero, Nat.add_zero]
  rw [setFile_self]

/-- Under the condition a write runs through and keeps the blocks sound. -/
theorem writeFile_ok (h : BlocksInv answers s) (hfresh : FreshAnswers answers)
    (hb : FileBlock s n k) {c : WriteCall}
    (hok : BlockOk answers s n (s.fileDataPool k).numPages.toNat c) :
    ∃ r s', writeFile answers s n k c.offset c.size c.data = some (r, s') ∧
      BlocksInv answers s' ∧
      (c.size = 0 ∨ r = -1 → ∀ offset size,
        ramfsRead s' (some n) offset size = ramfsRead s (some n) offset size) := by
  have hle := h.pages_le n k hb
  have hout := writeFile_outcome answers n c.offset c.size c.data hle
  generalize writeFile answers s n k c.offset c.size c.data = out at hout
  unfold BlockOk at hok
  dsimp only at hok
  cases hout with
  | @failed i hile hilt hbefore hzero =>
    have hi : i = 0 := by
      rcases hok with ⟨hlt, -⟩ | ⟨-, -, hfirst⟩ | ⟨-, -, -, hall, -⟩
      · omega
      · by_contra hne
        exact hbefore 0 (by omega) hfirst
      · exact absurd hzero (hall i (by omega))
    subst hi
    refine ⟨-1, _, rfl, ?_, fun _ offset size => ?_⟩
    · rw [grow_zero, setFile_self]
      exact h.allocFails hzero
    · rw [grow_zero, setFile_self]
      rfl
  | overrun hlast hall =>
    rcases hok with ⟨hlt, -⟩ | ⟨-, hlt, hfirst⟩ | ⟨-, hlt, -⟩
    · omega
    · exact absurd hfirst (hall 0 (by omega))
    · omega
  | extended hlast hall =>
    have hext := h.extend hfresh hb hlast hall
    have hnum := toNat_extend_numPages (s := s) (k := k) answers hlast
    by_cases hsize : c.size = 0
    · -- an empty write changes nothing at all
      have hlt : (endPage c.offset c.size).toNat < (s.fileDataPool k).numPages.toNat := by
        rcases hok with ⟨hlt, -⟩ | ⟨hge, -, hfirst⟩ | ⟨-, -, hne, -⟩
        · exact hlt
        · exact absurd hfirst (hall 0 (by omega))
        · exact absurd hsize hne
      have hfits : SizeFits s n (s.fileDataPool k).numPages.toNat c := by
        rcases hok with ⟨-, hfits⟩ | ⟨hge, -⟩ | ⟨hge, -⟩
        · exact hfits
        · omega
        · omega
      rw [SizeFits, if_pos hsize] at hfits
      rw [extend_of_lt answers hlt, hsize, storeBytes_empty, raiseSize_same hfits]
      exact ⟨0, s, rfl, h, fun _ _ _ => rfl⟩
    · have hfits : ∃ pages ≤ max (s.fileDataPool k).numPages.toNat
          ((endPage c.offset c.size).toNat + 1), SizeFits s n pages c := by
        rcases hok with ⟨-, hfits⟩ | ⟨hge, -, hfirst⟩ | ⟨-, -, -, -, hfits⟩
        · exact ⟨_, Nat.le_max_left .., hfits⟩
        · exact absurd hfirst (hall 0 (by omega))
        · exact ⟨_, Nat.le_max_right .., hfits⟩
      obtain ⟨pages, hpages, hfits⟩ := hfits
      rw [SizeFits, if_neg hsize] at hfits
      by_cases hinside : (pageIdx c.offset).toNat ≤ (endPage c.offset c.size).toNat
      · have hfit := position_of_le_endPage hsize hinside
        have hbound : position c.offset + c.size.toNat ≤ maxFilePages * 4096 :=
          hfit.trans (Nat.mul_le_mul_right _ hlast)
        have hfit' : position c.offset + c.size.toNat ≤
            ((extend answers s k (endPage c.offset c.size)).fileDataPool k).numPages.toNat *
              4096 := by
          rw [hnum]
          exact hfit.trans (Nat.mul_le_mul_right _ (Nat.le_max_right ..))
        rw [storeBytes_inside n c.data (hext.backed (n := n) hb) hfit']
        refine ⟨_, _, rfl, ?_, ?_⟩
        · refine BlocksInv.raiseSize (hext.setFrames _) (n := n) hb fun _ => ?_
          rw [toNat_end hbound]
          exact hfit'
        · rintro (hzero | hneg)
          · exact absurd hzero hsize
          · omega
      · have hwrap := wraps_of_endPage_lt hsize hlast (Nat.lt_of_not_le hinside)
        have hout : ((extend answers s k (endPage c.offset c.size)).fileDataPool k).numPages.toNat ≤
            position c.offset / 4096 := (hext.pages_le n k hb).trans hwrap.1
        rw [storeBytes_outside n c.size c.data hout]
        refine ⟨_, _, rfl, ?_, ?_⟩
        · refine BlocksInv.raiseSize hext hb fun _ => ?_
          rw [hnum]
          exact (hfits.resolve_left hinside).trans (Nat.mul_le_mul_right _ hpages)
        · rintro (hzero | hneg)
          · exact absurd hzero hsize
          · omega

/-- Two states in which a file reads the same give it the same size. -/
theorem size_of_same_reads {s' : Vfs} {k' : ℕ} (h : BlocksSound answers s) (hb : FileBlock s n k)
    (h' : BlocksSound answers s') (hb' : FileBlock s' n k')
    (hsame : ∀ offset size,
      ramfsRead s' (some n) offset size = ramfsRead s (some n) offset size) :
    (s'.ramfsNodePool n).size = (s.ramfsNodePool n).size := by
  have hcount (offset : UInt32) :
      min 1 ((s'.ramfsNodePool n).size.toNat - offset.toNat) =
        min 1 ((s.ramfsNodePool n).size.toNat - offset.toNat) := by
    have hread := hsame offset.toUInt64 1
    rw [ramfsRead_file hb'.1 hb'.2 (h'.backed hb') (h'.size_le n k' hb') offset.toUInt64 1,
      ramfsRead_file hb.1 hb.2 (h.backed hb) (h.size_le n k hb) offset.toUInt64 1] at hread
    have hret := congrArg Prod.fst (Option.some.inj hread)
    simp only [UInt32.toNat_toUInt64, UInt32.toNat_one] at hret
    exact Int.ofNat.inj hret
  have h1 := hcount (s.ramfsNodePool n).size
  have h2 := hcount (s'.ramfsNodePool n).size
  apply UInt32.toNat_inj.mp
  omega

/-- A write that keeps the blocks sound meets the condition. -/
theorem blockOk_of_sound (h : BlocksInv answers s) (hfresh : FreshAnswers answers)
    (hb : FileBlock s n k) {c : WriteCall} {r : ℤ} {s' : Vfs}
    (hwrite : writeFile answers s n k c.offset c.size c.data = some (r, s'))
    (hsound : BlocksSound answers s')
    (hsame : c.size = 0 ∨ r = -1 → ∀ offset size,
      ramfsRead s' (some n) offset size = ramfsRead s (some n) offset size) :
    BlockOk answers s n (s.fileDataPool k).numPages.toNat c := by
  have hle := h.pages_le n k hb
  have hout := writeFile_outcome answers n c.offset c.size c.data hle
  rw [hwrite] at hout
  unfold BlockOk
  dsimp only
  generalize hres : some (r, s') = out at hout
  cases hout with
  | @failed i hile hilt hbefore hzero =>
    have hi : i = 0 := by
      -- otherwise a page pointer is set that the page count does not cover
      by_contra hne
      obtain ⟨-, rfl⟩ := Prod.mk.inj (Option.some.inj hres)
      have hiff := hsound.isSome_iff n k (s.fileDataPool k).numPages.toNat hb (by omega)
      simp only [Vfs.setFile, Function.update_self, grow] at hiff
      rw [if_pos ⟨le_rfl, by omega⟩] at hiff
      simp at hiff
    subst hi
    exact Or.inr (Or.inl ⟨by omega, by omega, hzero⟩)
  | overrun hlast hall =>
    exfalso
    obtain ⟨hpool, hblocks⟩ := storeBytes_keeps hres.symm
    have hb' : FileBlock s' n k := (hblocks n k).mpr hb
    have hnum : (s'.fileDataPool k).numPages = endPage c.offset c.size + 1 := by
      rw [hpool]
      simp [overrun, Vfs.setFile]
    have hpage : ((s'.fileDataPool k).pages 0).isSome := by
      rw [hpool]
      simp only [overrun, Vfs.setFile, Function.update_self, grow]
      split
      · rfl
      · exact (h.isSome_iff n k 0 hb (by decide)).mpr (by unfold maxFilePages at *; omega)
    have hpos := (hsound.isSome_iff n k 0 hb' (by decide)).mp hpage
    have hmax := hsound.pages_le n k hb'
    rw [hnum, UInt32.toNat_add, UInt32.toNat_one] at hpos hmax
    have hlt := (endPage c.offset c.size).toNat_lt
    unfold maxFilePages at hlast hmax
    omega
  | extended hlast hall =>
    have hext := h.extend hfresh hb hlast hall
    have hnum := toNat_extend_numPages (s := s) (k := k) answers hlast
    have hall' (hge : (s.fileDataPool k).numPages.toNat ≤ (endPage c.offset c.size).toNat)
        (i : ℕ) (hi : i ≤ (endPage c.offset c.size).toNat - (s.fileDataPool k).numPages.toNat) :
        answers (s.allocs + i) ≠ 0 := hall i (by omega)
    by_cases hsize : c.size = 0
    · rw [hsize, storeBytes_empty] at hres
      obtain ⟨-, rfl⟩ := Prod.mk.inj (Option.some.inj hres)
      have hsz := size_of_same_reads h.toBlocksSound hb hsound (fileBlock_raiseSize.mpr hb)
        (hsame (Or.inl hsize))
      rw [raiseSize_self] at hsz
      have hfits : c.offset ≤ (s.ramfsNodePool n).size.toUInt64 ∨
          c.offset.toUInt32 = (s.ramfsNodePool n).size := by
        by_cases hgt : c.offset > (s.ramfsNodePool n).size.toUInt64
        · exact Or.inr ((if_pos hgt).symm.trans hsz)
        · exact Or.inl (UInt64.not_lt.mp hgt)
      have hlt : (endPage c.offset c.size).toNat < (s.fileDataPool k).numPages.toNat := by
        by_contra hge
        rw [hsize] at hge hlast
        obtain ⟨h1, -, h2⟩ := endPage_zero hlast
        have hcover := h.size_le n k hb
        rcases hfits with hoff | heq
        · have hoff := UInt64.le_iff_toNat_le.mp hoff
          rw [UInt32.toNat_toUInt64] at hoff
          omega
        · rw [heq] at h1
          omega
      refine Or.inl ⟨hlt, ?_⟩
      rw [SizeFits, if_pos hsize]
      exact hfits
    · have hfits : SizeFits s n (max (s.fileDataPool k).numPages.toNat
          ((endPage c.offset c.size).toNat + 1)) c := by
        rw [SizeFits, if_neg hsize]
        by_cases hinside : (pageIdx c.offset).toNat ≤ (endPage c.offset c.size).toNat
        · exact Or.inl hinside
        · have hwrap := wraps_of_endPage_lt hsize hlast (Nat.lt_of_not_le hinside)
          have hbehind : ((extend answers s k (endPage c.offset c.size)).fileDataPool k).numPages.toNat ≤
              position c.offset / 4096 := (hext.pages_le n k hb).trans hwrap.1
          rw [storeBytes_outside n c.size c.data hbehind] at hres
          obtain ⟨-, rfl⟩ := Prod.mk.inj (Option.some.inj hres)
          have hcover := hsound.size_le n k (fileBlock_raiseSize.mpr hb)
          have hgt : c.offset > ((extend answers s k (endPage c.offset c.size)).ramfsNodePool
              n).size.toUInt64 := by
            rw [gt_iff_lt, UInt64.lt_iff_toNat_lt, UInt32.toNat_toUInt64]
            exact (UInt32.toNat_lt _).trans_le hwrap.2
          rw [raiseSize_self, if_pos hgt, raiseSize_fileDataPool, hnum] at hcover
          exact Or.inr hcover
      rcases Nat.lt_or_ge (endPage c.offset c.size).toNat (s.fileDataPool k).numPages.toNat with
        hlt | hge
      · rw [Nat.max_eq_left (by omega)] at hfits
        exact Or.inl ⟨hlt, hfits⟩
      · rw [Nat.max_eq_right (by omega)] at hfits
        exact Or.inr (Or.inr ⟨hge, hlast, hsize, hall' hge, hfits⟩)

end block

/-! ## Single calls -/

theorem filePages_file {s : Vfs} {n k : ℕ} (h : (s.ramfsNodePool n).fsData = .file k) :
    filePages s n = (s.fileDataPool k).numPages.toNat := by
  simp [filePages, h]

/-- A write to a file with block `k`: sound exactly under the condition, which keeps the
invariant. -/
theorem writeFile_sound_iff {s : Vfs} {n k : ℕ} (h : BlocksInv answers s)
    (hfresh : FreshAnswers answers) (hb : FileBlock s n k) (c : WriteCall) :
    ((∃ r s', writeFile answers s n k c.offset c.size c.data = some (r, s') ∧
        BlocksSound answers s' ∧
        (c.size = 0 ∨ r = -1 → ∀ offset size,
          ramfsRead s' (some n) offset size = ramfsRead s (some n) offset size)) ↔
      BlockOk answers s n (s.fileDataPool k).numPages.toNat c) ∧
    ∀ r s', BlockOk answers s n (s.fileDataPool k).numPages.toNat c →
      writeFile answers s n k c.offset c.size c.data = some (r, s') → BlocksInv answers s' := by
  refine ⟨⟨?_, ?_⟩, ?_⟩
  · rintro ⟨r, s', hwrite, hsound, hsame⟩
    exact blockOk_of_sound h hfresh hb hwrite hsound hsame
  · intro hok
    obtain ⟨r, s', hwrite, hinv, hsame⟩ := writeFile_ok h hfresh hb hok
    exact ⟨r, s', hwrite, hinv.toBlocksSound, hsame⟩
  · intro r s' hok hwrite
    obtain ⟨r', t, hwrite', hinv, -⟩ := writeFile_ok h hfresh hb hok
    rw [hwrite] at hwrite'
    obtain ⟨-, rfl⟩ := Prod.mk.inj (Option.some.inj hwrite')
    exact hinv

/-- A call keeps the blocks sound exactly under the condition, and then the invariant too. -/
theorem writeSound_iff {s : Vfs} (h : BlocksInv answers s) (hfresh : FreshAnswers answers)
    (c : WriteCall) :
    (WriteSound answers s c ↔ WriteOk answers s c) ∧
      ∀ s', WriteOk answers s c → writeStep answers s c = some s' → BlocksInv answers s' := by
  -- calls that are refused
  have hrefused (hwrite : ramfsWrite answers s c.node c.offset c.size c.data = some (-1, s))
      (hok : WriteOk answers s c) :
      (WriteSound answers s c ↔ WriteOk answers s c) ∧
        ∀ s', WriteOk answers s c → writeStep answers s c = some s' → BlocksInv answers s' := by
    refine ⟨iff_of_true ⟨-1, s, hwrite, h.toBlocksSound, fun _ _ _ => rfl⟩ hok, fun s' _ hs' => ?_⟩
    simp only [writeStep, hwrite, Option.map_some, Option.some.injEq] at hs'
    rwa [← hs']
  cases hnode : c.node with
  | none => exact hrefused (by simp [ramfsWrite, hnode]) fun n hn => by simp [hnode] at hn
  | some n =>
    by_cases hdir : (s.ramfsNodePool n).isDir
    · refine hrefused (by simp [ramfsWrite, hnode, hdir]) fun m hm hmdir => ?_
      rw [hnode] at hm
      obtain rfl := Option.some.inj hm
      exact absurd hdir hmdir
    -- calls that reach a data block, in a state where it is there
    have hreached {k : ℕ} {t : Vfs} (ht : BlocksInv answers t) (hb : FileBlock t n k)
        (hwrite : ramfsWrite answers s (some n) c.offset c.size c.data =
          writeFile answers t n k c.offset c.size c.data)
        (hread : ∀ offset size, ramfsRead t (some n) offset size = ramfsRead s (some n) offset size)
        (hcond : WriteOk answers s c ↔
          BlockOk answers t n (t.fileDataPool k).numPages.toNat c) :
        (WriteSound answers s c ↔ WriteOk answers s c) ∧
          ∀ s', WriteOk answers s c → writeStep answers s c = some s' → BlocksInv answers s' := by
      obtain ⟨hiff, hkeep⟩ := writeFile_sound_iff ht hfresh hb c
      rw [hcond, ← hiff]
      constructor
      · simp only [WriteSound, hnode, hwrite, hread]
      · intro s' hsound hs'
        obtain ⟨⟨r, u⟩, hu, rfl⟩ := Option.map_eq_some_iff.mp hs'
        rw [hnode, hwrite] at hu
        exact hkeep r u (hiff.mp hsound) hu
    have hcond (hroom : (s.ramfsNodePool n).fsData = .null → s.fileDataCount < maxRamfsFiles) :
        WriteOk answers s c ↔ BlockOk answers s n (filePages s n) c := by
      constructor
      · exact fun hok => hok n hnode hdir hroom
      · intro hok m hm _ _
        rw [hnode] at hm
        obtain rfl := Option.some.inj hm
        exact hok
    have hens := ensureFileData_cases h hdir
    generalize hout : ensureFileData s n (s.ramfsNodePool n).fsData = out at hens
    cases hens with
    | @had k hdata =>
      refine hreached h ⟨hdir, hdata⟩ (by simp [ramfsWrite, hdir, hout]) (fun _ _ => rfl) ?_
      have hroom : (s.ramfsNodePool n).fsData = .null → s.fileDataCount < maxRamfsFiles :=
        fun hnull => FsData.noConfusion (hnull.symm.trans hdata)
      rw [hcond hroom, filePages_file hdata]
    | added hnull hroom =>
      refine hreached (h.addBlock hdir hnull) (fileBlock_addBlock hdir)
        (by simp [ramfsWrite, hdir, hout]) (ramfsRead_addBlock h hdir hnull) ?_
      have hpages : filePages s n = 0 := by simp [filePages, hnull]
      rw [hcond fun _ => hroom, hpages, addBlock_new]
      simp only [BlockOk, SizeFits, addBlock_node]
      rfl
    | full hnull hfull =>
      refine hrefused (by simp [ramfsWrite, hnode, hdir, hout]) fun m hm _ hroom => ?_
      rw [hnode] at hm
      obtain rfl := Option.some.inj hm
      exact absurd (hroom hnull) (Nat.not_lt.mpr hfull)

/-! ## Runs -/

/-- After any calls that set up a file tree, a sequence of writes keeps the blocks sound
throughout exactly when every write meets the condition. -/
theorem writes_sound_iff (hfresh : FreshAnswers answers) {frames : UInt64 → ℕ → UInt8}
    {ops : List MountOp} {t : Traced} (hsetup : SetupRun frames ops t) (calls : List WriteCall) :
    BlocksSound answers t.vfs ∧
      (Always (writeStep answers) (WriteSound answers) t.vfs calls ↔
        Always (writeStep answers) (WriteOk answers) t.vfs calls) := by
  have hinit := (Untouched.run hsetup).blocksInv answers
  refine ⟨hinit.toBlocksSound, ?_⟩
  have hany : Always (writeStep answers) (fun _ _ => True) t.vfs calls := by
    generalize t.vfs = s
    induction calls generalizing s with
    | nil => trivial
    | cons c calls ih => exact ⟨trivial, fun u _ => ih u⟩
  exact always_iff (fun s c h _ => (writeSound_iff h hfresh c).1)
    (fun s c s' h _ hok hstep => (writeSound_iff h hfresh c).2 s' hok hstep) hinit hany

/-! ## Two writes to the file `/f` -/

/-- A write of one byte to `/f`, and one just behind the last page. -/
def writeFirst : WriteCall := ⟨some 1, 0, 1, fun _ => 0⟩
def writeBehind : WriteCall := ⟨some 1, 128 * 4096, 1, fun _ => 0⟩

theorem writes_sound_iff_first :
    Always (writeStep answers₁) (WriteSound answers₁) file₂.vfs [writeFirst] := by
  refine ((writes_sound_iff freshAnswers₁ file_setup [writeFirst]).2).mpr
    ⟨?_, fun _ _ => trivial⟩
  rintro n hn - -
  obtain rfl := Option.some.inj hn
  refine Or.inr (Or.inr ⟨by decide +kernel, by decide +kernel, by decide, ?_, ?_⟩)
  · decide +kernel
  · exact Or.inl (by decide +kernel)

/-- A write of one byte behind the last page stores a page count of 129 and then reads
the pointer behind the 128 there are. -/
theorem write_behind_overruns :
    ¬ ∀ answers frames ops t calls, FreshAnswers answers → SetupRun frames ops t →
      BlocksSound answers t.vfs ∧
        Always (writeStep answers) (WriteSound answers) t.vfs calls := by
  intro hall
  obtain ⟨-, ⟨r, s', hwrite, -⟩, -⟩ :=
    hall answers₁ _ _ file₂ [writeBehind] freshAnswers₁ file_setup
  have hcrash : ramfsWrite answers₁ file₂.vfs writeBehind.node writeBehind.offset
      writeBehind.size writeBehind.data = none := by
    apply Option.isNone_iff_eq_none.mp
    decide +kernel
  rw [hcrash] at hwrite
  cases hwrite

end Rhoudveine.Fs
