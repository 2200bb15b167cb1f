import Rhoudveine.Mm.Stats
import Mathlib.Data.Set.Card

/-!
# The free frames right after `mm_init`

The memory map read as intervals of naturals: the frames `mm_init` frees, with no page
of a region's edge missed or added, and the four counters as the sizes of their parts.
-/

namespace Rhoudveine.Mm
open ByteBits

/-! ## The bytes of an entry -/

/-- One past the last byte of the entry. -/
def MemmapEntry.stop (e : MemmapEntry) : ℕ := e.base.toNat + e.length.toNat

/-- The entry ends at least a page before 2^64. -/
def MemmapEntry.Bounded (e : MemmapEntry) : Prop := e.stop + 4096 ≤ 2 ^ 64

/-- The page at `p` lies in the entry. -/
def MemmapEntry.HoldsPage (e : MemmapEntry) (p : UInt64) : Prop :=
  e.base.toNat ≤ p.toNat ∧ p.toNat + 4096 ≤ e.stop

/-- The page at `p` has a byte in the range. -/
def Meets (range : UInt64 × UInt64) (p : UInt64) : Prop :=
  p.toNat < range.2.toNat ∧ range.1.toNat < p.toNat + 4096

/-- `reserved_ranges[0]`. -/
def reservedRange (entries : List MemmapEntry) : UInt64 × UInt64 :=
  (bitmapPlacementAddr entries, bitmapPlacementAddr entries + reqSize)

/-- The frames a memory map offers: nonzero pages below 4 GiB + 8 GiB that lie in one
usable entry and have no byte in the reserved range. -/
structure Offered (entries : List MemmapEntry) (p : UInt64) : Prop where
  ne_zero : p ≠ 0
  aligned : p.toNat % 4096 = 0
  below : p.toNat < 2 ^ 32 + 2 ^ 33
  inside : ∃ e ∈ entries, e.usable = true ∧ e.HoldsPage p
  apart : ¬ Meets (reservedRange entries) p

variable {entries : List MemmapEntry} {e : MemmapEntry} {p : UInt64}

/-- The first page of the entry is at its base rounded up. -/
theorem toNat_regionStart (h : e.Bounded) :
    e.regionStart.toNat = (e.base.toNat + 4095) / 4096 * 4096 := by
  have hbound : e.base.toNat + e.length.toNat + 4096 ≤ 2 ^ 64 := h
  have hpage : pageSize.toNat = 4096 := rfl
  have hadd : (e.base + pageSize).toNat = e.base.toNat + 4096 ∨
      (e.base + pageSize).toNat = 0 ∧ e.base.toNat + 4096 = 2 ^ 64 := by
    rw [UInt64.toNat_add, hpage]
    omega
  have hsub : (e.base + pageSize - 1).toNat = e.base.toNat + 4095 := by
    have hone : (1 : UInt64).toNat = 1 := rfl
    rw [UInt64.toNat_sub, hone]
    omega
  rw [MemmapEntry.regionStart, Words.toNat_and_not_low _ _ toNat_pageMask, hsub]
  omega

/-- One past the last page of the entry is at its end rounded down. -/
theorem toNat_regionEnd (h : e.Bounded) : e.regionEnd.toNat = e.stop / 4096 * 4096 := by
  have hbound : e.base.toNat + e.length.toNat + 4096 ≤ 2 ^ 64 := h
  have hadd : (e.base + e.length).toNat = e.stop := by
    rw [UInt64.toNat_add, MemmapEntry.stop]
    omega
  rw [MemmapEntry.regionEnd, Words.toNat_and_not_low _ _ toNat_pageMask, hadd]
  omega

theorem holdsPage_iff (h : e.Bounded) (hp : p.toNat % 4096 = 0) :
    e.HoldsPage p ↔ e.regionStart ≤ p ∧ p < e.regionEnd := by
  rw [MemmapEntry.HoldsPage, UInt64.le_iff_toNat_le, UInt64.lt_iff_toNat_lt, toNat_regionStart h,
    toNat_regionEnd h]
  omega

theorem isReserved_singleton (range : UInt64 × UInt64) (hp : p.toNat + 4096 < 2 ^ 64) :
    isReserved [range] p = true ↔ Meets range p := by
  have hpage : pageSize.toNat = 4096 := rfl
  have hadd : (p + pageSize).toNat = p.toNat + 4096 := by
    rw [UInt64.toNat_add, hpage]
    omega
  simp only [isReserved, Meets, List.any_cons, List.any_nil, Bool.or_false, Bool.and_eq_true,
    decide_eq_true_eq, gt_iff_lt, UInt64.lt_iff_toNat_lt, hadd]

/-- What the loop frees and what the memory map offers are the same pages. -/
theorem offered_iff (h : ∀ e ∈ entries, e.usable = true → e.Bounded) :
    Offered entries p ↔
      UsablePage entries p ∧ isReserved [reservedRange entries] p = false := by
  have hend := managedEnd_eq
  constructor
  · intro hp
    obtain ⟨e, he, hu, hin⟩ := hp.inside
    have hbelow := hp.below
    have hedges := (holdsPage_iff (h e he hu) hp.aligned).mp hin
    refine ⟨⟨⟨hp.aligned, hp.ne_zero, by omega⟩, e, he, hu, hedges⟩, ?_⟩
    rw [Bool.eq_false_iff, Ne, isReserved_singleton _ (by omega)]
    exact hp.apart
  · rintro ⟨⟨hm, e, he, hu, hedges⟩, hres⟩
    have hbelow := hm.lt_end
    have hin := (holdsPage_iff (h e he hu) hm.aligned).mpr hedges
    refine ⟨hm.ne_zero, hm.aligned, by omega, ⟨e, he, hu, hin⟩, ?_⟩
    intro hmeets
    rw [← isReserved_singleton _ (by omega)] at hmeets
    exact Bool.false_ne_true (hres.symm.trans hmeets)

/-! ## The counters as sizes of sets of frames -/

theorem ncard_freeLow {s : Pfa} (hs : WellFormed s) :
    {p | FreeLow s p}.ncard = s.lowFreeCount.toNat := by
  have himage : {p | FreeLow s p} =
      (fun i => UInt64.ofNat i * pageSize) '' (clearBits s.lowBitmap maxPages : Set ℕ) := by
    ext p
    constructor
    · rintro ⟨ha, hlt, hclear⟩
      have hi : p.toNat / 4096 < maxPages := by rw [maxPages_eq]; omega
      refine ⟨p.toNat / 4096, mem_clearBits.mpr ⟨hi, hclear⟩, ?_⟩
      rw [← UInt64.toNat_inj, toNat_mul_pageSize hi]
      omega
    · rintro ⟨i, hi, rfl⟩
      obtain ⟨hi, hclear⟩ := mem_clearBits.mp hi
      exact freeLow_ofIndex hs hi hclear
  rw [himage, Set.InjOn.ncard_image, Set.ncard_coe_finset, hs.low_count]
  intro i hi j hj hij
  have hnat := congrArg UInt64.toNat hij
  dsimp only at hnat
  rw [toNat_mul_pageSize (mem_clearBits.mp hi).1, toNat_mul_pageSize (mem_clearBits.mp hj).1] at hnat
  omega

theorem ncard_freeHigh {s : Pfa} (hs : WellFormed s) :
    {p | FreeHigh s p}.ncard = s.freePagesCount.toNat := by
  have himage : {p | FreeHigh s p} =
      (fun i => 0x100000000 + UInt64.ofNat i * pageSize) ''
        (clearBits s.bitmap maxPages : Set ℕ) := by
    ext p
    constructor
    · rintro ⟨ha, hge, hlt, hclear⟩
      rw [managedEnd_eq] at hlt
      have hi : (p.toNat - 2 ^ 32) / 4096 < maxPages := by rw [maxPages_eq]; omega
      refine ⟨(p.toNat - 2 ^ 32) / 4096, mem_clearBits.mpr ⟨hi, hclear⟩, ?_⟩
      rw [← UInt64.toNat_inj, toNat_high_frame hi]
      omega
    · rintro ⟨i, hi, rfl⟩
      obtain ⟨hi, hclear⟩ := mem_clearBits.mp hi
      exact freeHigh_ofIndex hi hclear
  rw [himage, Set.InjOn.ncard_image, Set.ncard_coe_finset, hs.high_count]
  intro i hi j hj hij
  have hnat := congrArg UInt64.toNat hij
  dsimp only at hnat
  rw [toNat_high_frame (mem_clearBits.mp hi).1, toNat_high_frame (mem_clearBits.mp hj).1] at hnat
  omega

/-- The low bitmap holds the free frames below 4 GiB, the main one those from there. -/
theorem freeLow_iff {s : Pfa} : FreeLow s p ↔ FreeFrame s p ∧ p.toNat < 2 ^ 32 := by
  constructor
  · intro h
    exact ⟨Or.inl h, h.2.1⟩
  · rintro ⟨h | ⟨-, hge, -⟩, hlt⟩
    · exact h
    · omega

theorem freeHigh_iff {s : Pfa} : FreeHigh s p ↔ FreeFrame s p ∧ 2 ^ 32 ≤ p.toNat := by
  constructor
  · intro h
    exact ⟨Or.inr h, h.2.1⟩
  · rintro ⟨⟨-, hlt, -⟩ | h, hge⟩
    · omega
    · exact h

/-- `mm_init` frees exactly the frames the memory map offers and counts them. -/
theorem mmInit_frees_offered {hhdmOffset : UInt64} {m : State}
    (hbounded : ∀ e ∈ entries, e.usable = true → e.Bounded)
    (hinit : mmInit hhdmOffset (some entries) = some m) :
    {p | FreeFrame m.pfa p} = {p | Offered entries p} ∧
      m.pfa.lowFreeCount.toNat = {p | Offered entries p ∧ p.toNat < 2 ^ 32}.ncard ∧
      m.pfa.lowTotalCount.toNat = {p | Offered entries p ∧ p.toNat < 2 ^ 32}.ncard ∧
      m.pfa.freePagesCount.toNat = {p | Offered entries p ∧ 2 ^ 32 ≤ p.toNat}.ncard ∧
      m.pfa.totalPagesCount.toNat = {p | Offered entries p ∧ 2 ^ 32 ≤ p.toNat}.ncard := by
  obtain ⟨hwf, hfree⟩ := mmInit_spec hinit
  have hall := mmInit_allFree hinit
  have hoffered (p : UInt64) : FreeFrame m.pfa p ↔ Offered entries p :=
    (hfree p).trans (offered_iff hbounded).symm
  have hlow : {p | FreeLow m.pfa p} = {p | Offered entries p ∧ p.toNat < 2 ^ 32} := by
    ext p
    exact freeLow_iff.trans (and_congr_left' (hoffered p))
  have hhigh : {p | FreeHigh m.pfa p} = {p | Offered entries p ∧ 2 ^ 32 ≤ p.toNat} := by
    ext p
    exact freeHigh_iff.trans (and_congr_left' (hoffered p))
  rw [hall.low, hall.high, ← hlow, ← hhigh, ncard_freeLow hwf, ncard_freeHigh hwf]
  exact ⟨Set.ext hoffered, rfl, rfl, rfl, rfl⟩

/-- A map with an unaligned region and one that overlaps it. -/
theorem mmInit_frees_offered_overlap :
    ∃ m, mmInit 0xFFFF800000000000 (some [⟨0x100001, 0x100000, 0⟩, ⟨0x180000, 0x40000, 5⟩]) =
        some m ∧
      {p | FreeFrame m.pfa p} =
        {p | Offered [⟨0x100001, 0x100000, 0⟩, ⟨0x180000, 0x40000, 5⟩] p} := by
  obtain ⟨m, hm⟩ := mmInit_isSome 0xFFFF800000000000
    (show bitmapPlacementAddr [⟨0x100001, 0x100000, 0⟩, ⟨0x180000, 0x40000, 5⟩] ≠ 0 by decide)
  have hbounded : ∀ e ∈ [(⟨0x100001, 0x100000, 0⟩ : MemmapEntry), ⟨0x180000, 0x40000, 5⟩],
      e.usable = true → e.Bounded := by
    intro e he _
    rcases List.mem_pair.mp he with rfl | rfl
    · unfold MemmapEntry.Bounded
      decide
    · unfold MemmapEntry.Bounded
      decide
  exact ⟨m, hm, (mmInit_frees_offered hbounded hm).1⟩

end Rhoudveine.Mm
