import Rhoudveine.Mm.Pfa

/-!
# The allocator as a set of free frames

A frame is named by the physical address of its first byte.  `FreeLow` and
`FreeHigh` read the free frames off the two bitmaps, and one lemma per public
function says what it does to them.
-/

namespace Rhoudveine.Mm
open ByteBits

/-- Bytes of physical memory below which every frame has a bit: 4 GiB for the low
bitmap and `MAX_PAGES` frames above it for the main one. -/
def managedEnd : ℕ := 2 ^ 32 + maxPages * 4096

theorem managedEnd_eq : managedEnd = 12884901888 := rfl

theorem toNat_four_gib : (0x100000000 : UInt64).toNat = 2 ^ 32 := rfl

/-- A frame address the allocator can hold: page aligned, not zero, below the
end of the main bitmap. -/
structure Managed (p : UInt64) : Prop where
  aligned : p.toNat % 4096 = 0
  ne_zero : p ≠ 0
  lt_end : p.toNat < managedEnd

def FreeLow (s : Pfa) (p : UInt64) : Prop :=
  p.toNat % 4096 = 0 ∧ p.toNat < 2 ^ 32 ∧ bit s.lowBitmap (p.toNat / 4096) = false

def FreeHigh (s : Pfa) (p : UInt64) : Prop :=
  p.toNat % 4096 = 0 ∧ 2 ^ 32 ≤ p.toNat ∧ p.toNat < managedEnd ∧
    bit s.bitmap ((p.toNat - 2 ^ 32) / 4096) = false

def FreeFrame (s : Pfa) (p : UInt64) : Prop := FreeLow s p ∨ FreeHigh s p

/-- What `mm_init` establishes and every call keeps. -/
structure WellFormed (s : Pfa) : Prop where
  base : s.bitmapBase = 0x100000000
  /-- The low bitmap has clear bits only for frames 1 to 2^20 - 1. -/
  low_clear : ∀ i < maxPages, bit s.lowBitmap i = false → 0 < i ∧ i < 2 ^ 20
  low_count : s.lowFreeCount.toNat = (clearBits s.lowBitmap maxPages).card
  high_count : s.freePagesCount.toNat = (clearBits s.bitmap maxPages).card

/-! ## Addresses and indices -/

theorem toNat_div_pageSize (p : UInt64) : (p / pageSize).toNat = p.toNat / 4096 := by
  rw [UInt64.toNat_div]
  rfl

theorem toNat_mul_pageSize {i : ℕ} (hi : i < maxPages) :
    (UInt64.ofNat i * pageSize).toNat = i * 4096 := by
  have hp : pageSize.toNat = 4096 := rfl
  rw [maxPages_eq] at hi
  rw [UInt64.toNat_mul, hp, UInt64.toNat_ofNat', Nat.mod_eq_of_lt (by omega : i < 2 ^ 64),
    Nat.mod_eq_of_lt (by omega)]

theorem toNat_high_frame {i : ℕ} (hi : i < maxPages) :
    ((0x100000000 : UInt64) + UInt64.ofNat i * pageSize).toNat = 2 ^ 32 + i * 4096 := by
  rw [UInt64.toNat_add, toNat_mul_pageSize hi, toNat_four_gib]
  rw [maxPages_eq] at hi
  exact Nat.mod_eq_of_lt (by omega)

theorem toNat_addrToIndex {s : Pfa} (hbase : s.bitmapBase = 0x100000000) {p : UInt64}
    (hp : 2 ^ 32 ≤ p.toNat) : addrToIndex s p = (p.toNat - 2 ^ 32) / 4096 := by
  unfold addrToIndex
  have hle : (0x100000000 : UInt64) ≤ p := UInt64.le_iff_toNat_le.mpr (by rwa [toNat_four_gib])
  rw [toNat_div_pageSize, hbase, UInt64.toNat_sub_of_le _ _ hle, toNat_four_gib]

theorem freeLow_managed {s : Pfa} (hs : WellFormed s) {p : UInt64} (h : FreeLow s p) :
    Managed p := by
  obtain ⟨ha, hlt, hclear⟩ := h
  have hi : p.toNat / 4096 < maxPages := by rw [maxPages_eq]; omega
  obtain ⟨hpos, -⟩ := hs.low_clear _ hi hclear
  refine ⟨ha, ?_, by rw [managedEnd_eq]; omega⟩
  rintro rfl
  exact absurd hpos (by decide)

theorem freeHigh_managed {s : Pfa} {p : UInt64} (h : FreeHigh s p) : Managed p := by
  obtain ⟨ha, hge, hlt, -⟩ := h
  refine ⟨ha, ?_, hlt⟩
  rintro rfl
  exact absurd hge (by decide)

theorem freeFrame_managed {s : Pfa} (hs : WellFormed s) {p : UInt64} (h : FreeFrame s p) :
    Managed p := h.elim (freeLow_managed hs) freeHigh_managed

/-- The frame of low index `i`. -/
theorem freeLow_ofIndex {s : Pfa} (hs : WellFormed s) {i : ℕ} (hi : i < maxPages)
    (hclear : bit s.lowBitmap i = false) : FreeLow s (UInt64.ofNat i * pageSize) := by
  obtain ⟨-, hlt⟩ := hs.low_clear i hi hclear
  refine ⟨?_, ?_, ?_⟩ <;> rw [toNat_mul_pageSize hi]
  · omega
  · omega
  · rwa [Nat.mul_div_cancel _ (by norm_num)]

/-- The frame of main index `i`. -/
theorem freeHigh_ofIndex {s : Pfa} {i : ℕ} (hi : i < maxPages)
    (hclear : bit s.bitmap i = false) :
    FreeHigh s (0x100000000 + UInt64.ofNat i * pageSize) := by
  refine ⟨?_, ?_, ?_, ?_⟩ <;> rw [toNat_high_frame hi]
  · omega
  · omega
  · rw [managedEnd_eq]; rw [maxPages_eq] at hi; omega
  · rwa [show (2 ^ 32 + i * 4096 - 2 ^ 32) / 4096 = i by omega]

/-! ## Counters -/

theorem toNat_count_dec {c : UInt64} {n : ℕ} (h : c.toNat = n) (hn : 0 < n) :
    (c - 1).toNat = n - 1 := by
  have h1 : (1 : UInt64).toNat = 1 := rfl
  rw [UInt64.toNat_sub_of_le _ _ (UInt64.le_iff_toNat_le.mpr (by omega)), h, h1]

theorem toNat_count_inc {c : UInt64} {n : ℕ} (h : c.toNat = n) (hn : n < maxPages) :
    (c + 1).toNat = n + 1 := by
  have h1 : (1 : UInt64).toNat = 1 := rfl
  rw [maxPages_eq] at hn
  rw [UInt64.toNat_add, h, h1, Nat.mod_eq_of_lt (by omega)]

/-! ## What each call does -/

/-- `pfa_alloc_low` hands out the lowest free low frame and sets its bit, or
returns 0 when there is none. -/
theorem pfaAllocLow_cases (s : Pfa) :
    (∃ i, i < maxPages ∧ bit s.lowBitmap i = false ∧ (∀ j < i, bit s.lowBitmap j = true) ∧
      pfaAllocLow s = (UInt64.ofNat i * pageSize,
        { s with lowBitmap := bitmapSetUsed s.lowBitmap i, lowFreeCount := s.lowFreeCount - 1 })) ∨
    ((∀ i < maxPages, bit s.lowBitmap i = true) ∧ pfaAllocLow s = (0, s)) := by
  unfold pfaAllocLow
  cases h : scanBitmap s.lowBitmap with
  | some i =>
    obtain ⟨hi, hclear, hbelow⟩ := scanBitmap_eq_some.mp h
    exact Or.inl ⟨i, hi, hclear, hbelow, rfl⟩
  | none => exact Or.inr ⟨scanBitmap_eq_none.mp h, rfl⟩

theorem pfaAlloc_cases {s : Pfa} (hs : WellFormed s) :
    (∃ i, i < maxPages ∧ bit s.bitmap i = false ∧ (∀ j < i, bit s.bitmap j = true) ∧
      pfaAlloc s = (0x100000000 + UInt64.ofNat i * pageSize,
        { s with bitmap := bitmapSetUsed s.bitmap i, freePagesCount := s.freePagesCount - 1 })) ∨
    ((∀ i < maxPages, bit s.bitmap i = true) ∧ pfaAlloc s = (0, s)) := by
  unfold pfaAlloc
  cases h : scanBitmap s.bitmap with
  | some i =>
    obtain ⟨hi, hclear, hbelow⟩ := scanBitmap_eq_some.mp h
    exact Or.inl ⟨i, hi, hclear, hbelow, by simp only [hs.base]⟩
  | none => exact Or.inr ⟨scanBitmap_eq_none.mp h, rfl⟩

/-- On a managed frame `pfa_free` clears the frame's bit and counts it, unless the
bit was clear already. -/
theorem pfaFree_cases {s : Pfa} (hs : WellFormed s) {p : UInt64} (hp : Managed p) :
    (p.toNat < 2 ^ 32 ∧ bit s.lowBitmap (p.toNat / 4096) = true ∧
      pfaFree s p = { s with
        lowBitmap := bitmapSetFree s.lowBitmap (p.toNat / 4096)
        lowFreeCount := s.lowFreeCount + 1
        lowTotalCount := s.lowTotalCount + 1 }) ∨
    (2 ^ 32 ≤ p.toNat ∧ bit s.bitmap ((p.toNat - 2 ^ 32) / 4096) = true ∧
      pfaFree s p = { s with
        bitmap := bitmapSetFree s.bitmap ((p.toNat - 2 ^ 32) / 4096)
        freePagesCount := s.freePagesCount + 1
        totalPagesCount := s.totalPagesCount + 1 }) ∨
    (FreeFrame s p ∧ pfaFree s p = s) := by
  obtain ⟨ha, hz, hend⟩ := hp
  rw [managedEnd_eq] at hend
  unfold pfaFree
  rw [if_neg hz]
  by_cases hlow : p.toNat < 2 ^ 32
  · rw [if_pos (UInt64.lt_iff_toNat_lt.mpr (by rwa [toNat_four_gib]))]
    simp only [toNat_div_pageSize]
    rw [if_neg (by rw [maxPages_eq]; omega)]
    cases hbit : bit s.lowBitmap (p.toNat / 4096) with
    | true => exact Or.inl ⟨hlow, rfl, by simp [hbit]⟩
    | false => exact Or.inr (Or.inr ⟨Or.inl ⟨ha, hlow, hbit⟩, by simp [hbit]⟩)
  · have hge : 2 ^ 32 ≤ p.toNat := by omega
    rw [if_neg (by rw [UInt64.lt_iff_toNat_lt, toNat_four_gib]; omega),
      if_neg (by rw [hs.base, UInt64.lt_iff_toNat_lt, toNat_four_gib]; omega)]
    simp only [toNat_addrToIndex hs.base hge]
    rw [if_neg (by rw [maxPages_eq]; omega)]
    cases hbit : bit s.bitmap ((p.toNat - 2 ^ 32) / 4096) with
    | true => exact Or.inr (Or.inl ⟨hge, rfl, by rw [bitmapIsFree_eq, hbit]; rfl⟩)
    | false =>
      exact Or.inr (Or.inr ⟨Or.inr ⟨ha, hge, by rwa [managedEnd_eq], hbit⟩,
        by rw [bitmapIsFree_eq, hbit]; rfl⟩)

/-- Outside the managed range `pfa_free` does nothing. -/
theorem pfaFree_unmanaged {s : Pfa} (hs : WellFormed s) {p : UInt64}
    (hp : p.toNat % 4096 = 0) (h : ¬ Managed p) : pfaFree s p = s := by
  unfold pfaFree
  by_cases hz : p = 0
  · rw [if_pos hz]
  · have hend : managedEnd ≤ p.toNat := by
      by_contra hlt
      exact h ⟨hp, hz, by omega⟩
    rw [managedEnd_eq] at hend
    rw [if_neg hz, if_neg (by rw [UInt64.lt_iff_toNat_lt, toNat_four_gib]; omega),
      if_neg (by rw [hs.base, UInt64.lt_iff_toNat_lt, toNat_four_gib]; omega)]
    simp only [toNat_addrToIndex hs.base (by omega : 2 ^ 32 ≤ p.toNat)]
    rw [if_pos (by rw [maxPages_eq]; omega)]

/-! ## The invariant is kept -/

theorem pfaAllocLow_wellFormed {s : Pfa} (hs : WellFormed s) : WellFormed (pfaAllocLow s).2 := by
  rcases pfaAllocLow_cases s with ⟨i, hi, hclear, -, heq⟩ | ⟨-, heq⟩
  · have hmem : i ∈ clearBits s.lowBitmap maxPages := by simp [hi, hclear]
    have hset := clearBits_set maxPages (bit_bitmapSetUsed s.lowBitmap i)
    have hcard := Finset.card_erase_of_mem hmem
    rw [heq]
    refine ⟨hs.base, fun j hj hb => ?_, ?_, hs.high_count⟩
    · simp only [bit_bitmapSetUsed, Bool.or_eq_false_iff] at hb
      exact hs.low_clear j hj hb.1
    · change (s.lowFreeCount - 1).toNat = (clearBits (bitmapSetUsed s.lowBitmap i) maxPages).card
      rw [hset, hcard]
      exact toNat_count_dec hs.low_count (Finset.card_pos.mpr ⟨i, hmem⟩)
  · rwa [heq]

theorem pfaAlloc_wellFormed {s : Pfa} (hs : WellFormed s) : WellFormed (pfaAlloc s).2 := by
  rcases pfaAlloc_cases hs with ⟨i, hi, hclear, -, heq⟩ | ⟨-, heq⟩
  · have hmem : i ∈ clearBits s.bitmap maxPages := by simp [hi, hclear]
    have hset := clearBits_set maxPages (bit_bitmapSetUsed s.bitmap i)
    have hcard := Finset.card_erase_of_mem hmem
    rw [heq]
    refine ⟨hs.base, hs.low_clear, hs.low_count, ?_⟩
    change (s.freePagesCount - 1).toNat = (clearBits (bitmapSetUsed s.bitmap i) maxPages).card
    rw [hset, hcard]
    exact toNat_count_dec hs.high_count (Finset.card_pos.mpr ⟨i, hmem⟩)
  · rwa [heq]

/-- Clearing a set bit adds one to the count, with room to spare in 64 bits. -/
theorem card_clearBits_setFree {b : ℕ → UInt8} {i : ℕ} (hi : i < maxPages) (hset : bit b i = true) :
    (clearBits (bitmapSetFree b i) maxPages).card = (clearBits b maxPages).card + 1 ∧
      (clearBits b maxPages).card < maxPages := by
  have hnot : i ∉ clearBits b maxPages := by simp [hset]
  have hcl := clearBits_clear hi (bit_bitmapSetFree b i)
  have hcard := Finset.card_insert_of_notMem hnot
  have hle := clearBits_card_le (bitmapSetFree b i) maxPages
  rw [hcl, hcard] at hle
  exact ⟨by rw [hcl, hcard], by omega⟩

theorem pfaFree_wellFormed {s : Pfa} (hs : WellFormed s) {p : UInt64} (hp : Managed p) :
    WellFormed (pfaFree s p) := by
  have hend := hp.lt_end
  rw [managedEnd_eq] at hend
  have hz : p.toNat ≠ 0 := fun h => hp.ne_zero (UInt64.toNat_inj.mp h)
  have ha := hp.aligned
  rcases pfaFree_cases hs hp with ⟨hlow, hbit, heq⟩ | ⟨hge, hbit, heq⟩ | ⟨-, heq⟩
  · obtain ⟨hcard, hroom⟩ := card_clearBits_setFree (by rw [maxPages_eq]; omega) hbit
    rw [heq]
    refine ⟨hs.base, fun j hj hb => ?_, ?_, hs.high_count⟩
    · simp only [bit_bitmapSetFree, Bool.and_eq_false_iff, Bool.not_eq_false',
        decide_eq_true_eq] at hb
      rcases hb with hb | rfl
      · exact hs.low_clear j hj hb
      · omega
    · exact (toNat_count_inc hs.low_count hroom).trans hcard.symm
  · obtain ⟨hcard, hroom⟩ := card_clearBits_setFree (by rw [maxPages_eq]; omega) hbit
    rw [heq]
    exact ⟨hs.base, hs.low_clear, hs.low_count,
      (toNat_count_inc hs.high_count hroom).trans hcard.symm⟩
  · rwa [heq]

/-! ## The free frames after a call -/

/-- Two aligned low addresses with the same index are the same frame. -/
theorem eq_of_low_index {p q : UInt64} (hp : p.toNat % 4096 = 0) (hq : q.toNat % 4096 = 0)
    (h : p.toNat / 4096 = q.toNat / 4096) : p = q :=
  UInt64.toNat_inj.mp (by omega)

theorem freeFrame_pfaFree {s : Pfa} (hs : WellFormed s) {p : UInt64} (hp : Managed p) (q : UInt64) :
    FreeFrame (pfaFree s p) q ↔ FreeFrame s q ∨ q = p := by
  have ha := hp.aligned
  rcases pfaFree_cases hs hp with ⟨hlow, hbit, heq⟩ | ⟨hge, hbit, heq⟩ | ⟨hfree, heq⟩
  · rw [heq]
    simp only [FreeFrame, FreeLow, FreeHigh, bit_bitmapSetFree, Bool.and_eq_false_iff,
      Bool.not_eq_false', decide_eq_true_eq]
    constructor
    · rintro (⟨hqa, hql, hb | hi⟩ | h)
      · exact Or.inl (Or.inl ⟨hqa, hql, hb⟩)
      · exact Or.inr (eq_of_low_index hqa ha hi.symm)
      · exact Or.inl (Or.inr h)
    · rintro ((⟨hqa, hql, hb⟩ | h) | rfl)
      · exact Or.inl ⟨hqa, hql, Or.inl hb⟩
      · exact Or.inr h
      · exact Or.inl ⟨ha, hlow, Or.inr rfl⟩
  · rw [heq]
    simp only [FreeFrame, FreeLow, FreeHigh, bit_bitmapSetFree, Bool.and_eq_false_iff,
      Bool.not_eq_false', decide_eq_true_eq]
    constructor
    · rintro (h | ⟨hqa, hqg, hqe, hb | hi⟩)
      · exact Or.inl (Or.inl h)
      · exact Or.inl (Or.inr ⟨hqa, hqg, hqe, hb⟩)
      · exact Or.inr (UInt64.toNat_inj.mp (by omega))
    · rintro ((h | ⟨hqa, hqg, hqe, hb⟩) | rfl)
      · exact Or.inl h
      · exact Or.inr ⟨hqa, hqg, hqe, Or.inl hb⟩
      · exact Or.inr ⟨ha, hge, hp.lt_end, Or.inr rfl⟩
  · rw [heq]
    constructor
    · exact Or.inl
    · rintro (h | rfl)
      · exact h
      · exact hfree

theorem freeFrame_pfaAllocLow {s : Pfa} (hs : WellFormed s) (q : UInt64) :
    FreeFrame (pfaAllocLow s).2 q ↔ FreeFrame s q ∧ q ≠ (pfaAllocLow s).1 := by
  rcases pfaAllocLow_cases s with ⟨i, hi, hclear, -, heq⟩ | ⟨-, heq⟩
  · obtain ⟨-, hilt⟩ := hs.low_clear i hi hclear
    have hr := toNat_mul_pageSize hi
    rw [heq]
    simp only [FreeFrame, FreeLow, FreeHigh, bit_bitmapSetUsed, Bool.or_eq_false_iff,
      decide_eq_false_iff_not]
    constructor
    · rintro (⟨hqa, hql, hb, hne⟩ | h)
      · refine ⟨Or.inl ⟨hqa, hql, hb⟩, ?_⟩
        rintro rfl
        rw [hr] at hne
        omega
      · refine ⟨Or.inr h, ?_⟩
        rintro rfl
        have := h.2.1
        rw [hr] at this
        omega
    · rintro ⟨⟨hqa, hql, hb⟩ | h, hne⟩
      · refine Or.inl ⟨hqa, hql, hb, fun hi' => hne (UInt64.toNat_inj.mp ?_)⟩
        rw [hr]
        omega
      · exact Or.inr h
  · rw [heq]
    constructor
    · intro h
      exact ⟨h, (freeFrame_managed hs h).ne_zero⟩
    · exact And.left

theorem freeFrame_pfaAlloc {s : Pfa} (hs : WellFormed s) (q : UInt64) :
    FreeFrame (pfaAlloc s).2 q ↔ FreeFrame s q ∧ q ≠ (pfaAlloc s).1 := by
  rcases pfaAlloc_cases hs with ⟨i, hi, hclear, -, heq⟩ | ⟨-, heq⟩
  · have hr := toNat_high_frame hi
    rw [heq]
    simp only [FreeFrame, FreeLow, FreeHigh, bit_bitmapSetUsed, Bool.or_eq_false_iff,
      decide_eq_false_iff_not]
    constructor
    · rintro (h | ⟨hqa, hqg, hqe, hb, hne⟩)
      · refine ⟨Or.inl h, ?_⟩
        rintro rfl
        have := h.2.1
        rw [hr] at this
        omega
      · refine ⟨Or.inr ⟨hqa, hqg, hqe, hb⟩, ?_⟩
        rintro rfl
        rw [hr] at hne
        omega
    · rintro ⟨h | ⟨hqa, hqg, hqe, hb⟩, hne⟩
      · exact Or.inl h
      · refine Or.inr ⟨hqa, hqg, hqe, hb, fun hi' => hne (UInt64.toNat_inj.mp ?_)⟩
        rw [hr]
        omega
  · rw [heq]
    constructor
    · intro h
      exact ⟨h, (freeFrame_managed hs h).ne_zero⟩
    · exact And.left

/-- `pfa_alloc_low` returns the lowest free frame below 4 GiB, or 0 when none is free. -/
theorem pfaAllocLow_lowest {s : Pfa} (hs : WellFormed s) :
    ((pfaAllocLow s).1 = 0 ↔ ∀ p, ¬ FreeLow s p) ∧
      ((pfaAllocLow s).1 ≠ 0 → FreeLow s (pfaAllocLow s).1 ∧
        ∀ p, FreeLow s p → (pfaAllocLow s).1 ≤ p) := by
  rcases pfaAllocLow_cases s with ⟨i, hi, hclear, hbelow, heq⟩ | ⟨hnone, heq⟩
  · have hfree := freeLow_ofIndex hs hi hclear
    have hr := toNat_mul_pageSize hi
    rw [heq]
    refine ⟨iff_of_false (freeLow_managed hs hfree).ne_zero fun h => h _ hfree, fun _ => ⟨hfree, ?_⟩⟩
    intro p hp
    rw [UInt64.le_iff_toNat_le, hr]
    by_contra hlt
    have := hbelow (p.toNat / 4096) (by omega)
    simp [hp.2.2] at this
  · rw [heq]
    refine ⟨iff_of_true rfl fun p hp => ?_, fun h => absurd rfl h⟩
    have := hnone (p.toNat / 4096) (by have := hp.2.1; rw [maxPages_eq]; omega)
    simp [hp.2.2] at this

theorem pfaAlloc_lowest {s : Pfa} (hs : WellFormed s) :
    ((pfaAlloc s).1 = 0 ↔ ∀ p, ¬ FreeHigh s p) ∧
      ((pfaAlloc s).1 ≠ 0 → FreeHigh s (pfaAlloc s).1 ∧
        ∀ p, FreeHigh s p → (pfaAlloc s).1 ≤ p) := by
  rcases pfaAlloc_cases hs with ⟨i, hi, hclear, hbelow, heq⟩ | ⟨hnone, heq⟩
  · have hfree := freeHigh_ofIndex hi hclear
    have hr := toNat_high_frame hi
    rw [heq]
    refine ⟨iff_of_false (freeHigh_managed hfree).ne_zero fun h => h _ hfree, fun _ => ⟨hfree, ?_⟩⟩
    intro p hp
    rw [UInt64.le_iff_toNat_le, hr]
    by_contra hlt
    have hge := hp.2.1
    have := hbelow ((p.toNat - 2 ^ 32) / 4096) (by omega)
    rw [hp.2.2.2] at this
    contradiction
  · rw [heq]
    refine ⟨iff_of_true rfl fun p hp => ?_, fun h => absurd rfl h⟩
    have hge := hp.2.1
    have hend := hp.2.2.1
    have := hnone ((p.toNat - 2 ^ 32) / 4096) (by
      rw [managedEnd_eq] at hend
      rw [maxPages_eq]
      omega)
    rw [hp.2.2.2] at this
    contradiction

end Rhoudveine.Mm
