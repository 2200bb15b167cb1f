import Rhoudveine.Mm.Frames

/-!
# `mm_init`

The bootloader's memory map, the search for a place for the two bitmaps, and the
loop that frees every usable page outside the reserved range.  The memory map is
read as a value: the bitmaps never overwrite it.
-/

namespace Rhoudveine.Mm
open ByteBits

/-- `struct limine_memmap_entry`. -/
structure MemmapEntry where
  base : UInt64
  length : UInt64
  type : UInt64
  deriving DecidableEq, Repr

def limineMemmapUsable : UInt64 := 0
def limineMemmapBootloaderReclaimable : UInt64 := 5

/-- The entry types `mm_init` takes memory from. -/
def MemmapEntry.usable (e : MemmapEntry) : Bool :=
  e.type == limineMemmapUsable || e.type == limineMemmapBootloaderReclaimable

/-- `(base + PAGE_SIZE - 1) & ~(PAGE_SIZE - 1)`, in 64 bits. -/
def MemmapEntry.regionStart (e : MemmapEntry) : UInt64 :=
  (e.base + pageSize - 1) &&& ~~~(pageSize - 1)

/-- `(base + length) & ~(PAGE_SIZE - 1)`, in 64 bits. -/
def MemmapEntry.regionEnd (e : MemmapEntry) : UInt64 :=
  (e.base + e.length) &&& ~~~(pageSize - 1)

def reqPages : UInt64 := 32

def reqSize : UInt64 := reqPages * pageSize

/-- The entry is large enough for what `mm_init` believes the bitmaps need. -/
def MemmapEntry.fits (e : MemmapEntry) : Bool :=
  e.regionEnd > e.regionStart && e.regionEnd - e.regionStart ≥ reqSize

/-- The loop that chooses `bitmap_placement_addr`. -/
def bitmapPlacementAddr (entries : List MemmapEntry) : UInt64 :=
  entries.foldl
    (fun placement e =>
      if !e.usable then placement
      else if e.fits then (if placement = 0 then e.regionStart else placement)
      else placement)
    0

/-- The inner loop over `reserved_ranges`. -/
def isReserved (reserved : List (UInt64 × UInt64)) (p : UInt64) : Bool :=
  reserved.any fun r => p < r.2 && p + pageSize > r.1

/-- `for (p = last_page; p > first_page;) { p -= PAGE_SIZE; … }`; the first
argument bounds the number of rounds. -/
def freePages (reserved : List (UInt64 × UInt64)) (firstPage : UInt64) : ℕ → UInt64 → Pfa → Pfa
  | 0, _, s => s
  | n + 1, p, s =>
    if p > firstPage then
      let p := p - pageSize
      if p = 0 then freePages reserved firstPage n p s
      else if isReserved reserved p then freePages reserved firstPage n p s
      else freePages reserved firstPage n p (pfaFree s p)
    else s

def freeEntry (reserved : List (UInt64 × UInt64)) (s : Pfa) (e : MemmapEntry) : Pfa :=
  if !e.usable then s
  else freePages reserved e.regionStart (e.regionEnd.toNat / 4096) e.regionEnd s

/-- The memory manager's static variables. -/
structure State where
  pfa : Pfa
  /-- The pointers `low_bitmap` and `bitmap`. -/
  lowBitmapPtr : UInt64
  bitmapPtr : UInt64
  nextMmioAddr : UInt64

/-- The counters start as zero-initialised statics, and the two `custom_memset`
calls mark every frame used. -/
def clearedPfa : Pfa where
  bitmap := fun _ => 0xFF
  bitmapBase := 0x100000000
  freePagesCount := 0
  totalPagesCount := 0
  lowBitmap := fun _ => 0xFF
  lowFreeCount := 0
  lowTotalCount := 0

/-- `none` is one of the two `FATAL` returns. -/
def mmInit (hhdmOffset : UInt64) (response : Option (List MemmapEntry)) : Option State :=
  match response with
  | none => none
  | some entries =>
    let placement := bitmapPlacementAddr entries
    if placement = 0 then none
    else
      let reserved := [(placement, placement + reqSize)]
      some
        { pfa := entries.foldl (freeEntry reserved) clearedPfa
          lowBitmapPtr := placement + hhdmOffset
          bitmapPtr := placement + UInt64.ofNat bitmapSize + hhdmOffset
          nextMmioAddr := 0xFFFFFFFF80000000 }

/-! ## Rounded bounds of an entry -/

theorem toNat_pageMask : (pageSize - 1 : UInt64).toNat = 2 ^ 12 - 1 := rfl

theorem regionStart_aligned (e : MemmapEntry) : e.regionStart.toNat % 4096 = 0 := by
  unfold MemmapEntry.regionStart
  rw [Words.toNat_and_not_low _ _ toNat_pageMask]
  omega

theorem regionEnd_aligned (e : MemmapEntry) : e.regionEnd.toNat % 4096 = 0 := by
  unfold MemmapEntry.regionEnd
  rw [Words.toNat_and_not_low _ _ toNat_pageMask]
  omega

/-! ## The freed pages -/

/-- A page that lies in the rounded bounds of a usable entry and that the
allocator has a bit for. -/
def UsablePage (entries : List MemmapEntry) (p : UInt64) : Prop :=
  Managed p ∧ ∃ e ∈ entries, e.usable = true ∧ e.regionStart ≤ p ∧ p < e.regionEnd

theorem clearedPfa_wellFormed : WellFormed clearedPfa := by
  have hset (i : ℕ) : bit (fun _ => 0xFF) i = true := bit_of_byte_full rfl
  have hempty : clearBits (fun _ => 0xFF) maxPages = ∅ := by
    ext i
    simp [hset]
  refine ⟨rfl, fun i _ h => ?_, ?_, ?_⟩
  · exact absurd h (by rw [clearedPfa, hset]; decide)
  · change 0 = (clearBits (fun _ => 0xFF) maxPages).card
    rw [hempty, Finset.card_empty]
  · change 0 = (clearBits (fun _ => 0xFF) maxPages).card
    rw [hempty, Finset.card_empty]

theorem not_freeFrame_clearedPfa (p : UInt64) : ¬ FreeFrame clearedPfa p := by
  have hset (i : ℕ) : bit (fun _ => 0xFF) i = true := bit_of_byte_full rfl
  rintro (⟨-, -, h⟩ | ⟨-, -, -, h⟩)
  · exact absurd h (by rw [clearedPfa, hset]; decide)
  · exact absurd h (by rw [clearedPfa, hset]; decide)

theorem toNat_sub_pageSize {p : UInt64} (h : 4096 ≤ p.toNat) :
    (p - pageSize).toNat = p.toNat - 4096 := by
  have hp : pageSize.toNat = 4096 := rfl
  rw [UInt64.toNat_sub_of_le _ _ (UInt64.le_iff_toNat_le.mpr (by rwa [hp])), hp]

/-- A page at or above `first` and below `p` is the page right below `p` or lies
below that page. -/
theorem page_below_cases {first p q : UInt64} (hp : p.toNat % 4096 = 0)
    (hq : q.toNat % 4096 = 0) (hlt : first < p) :
    first ≤ q ∧ q < p ↔ (q = p - pageSize ∧ first ≤ q) ∨ first ≤ q ∧ q < p - pageSize := by
  have hp4 : 4096 ≤ p.toNat := by have := UInt64.lt_iff_toNat_lt.mp hlt; omega
  have hsub := toNat_sub_pageSize hp4
  rw [← UInt64.toNat_inj, UInt64.lt_iff_toNat_lt, UInt64.lt_iff_toNat_lt, hsub]
  constructor
  · rintro ⟨hge, hlt'⟩
    by_cases h : q.toNat = p.toNat - 4096
    · exact Or.inl ⟨h, hge⟩
    · exact Or.inr ⟨hge, by omega⟩
  · rintro (⟨h, hge⟩ | ⟨hge, h⟩)
    · exact ⟨hge, by omega⟩
    · exact ⟨hge, by omega⟩

/-- The freeing loop, started with enough rounds, frees exactly the managed and
unreserved pages between its bounds. -/
theorem freePages_spec (reserved : List (UInt64 × UInt64)) {first : UInt64}
    (hfirst : first.toNat % 4096 = 0) (n : ℕ) {p : UInt64} (hp : p.toNat % 4096 = 0)
    (hn : p.toNat ≤ first.toNat + n * 4096) {s : Pfa} (hs : WellFormed s) :
    WellFormed (freePages reserved first n p s) ∧
      ∀ q, FreeFrame (freePages reserved first n p s) q ↔
        FreeFrame s q ∨ (Managed q ∧ isReserved reserved q = false ∧ first ≤ q ∧ q < p) := by
  induction n generalizing p s with
  | zero =>
    refine ⟨hs, fun q => ⟨Or.inl, ?_⟩⟩
    rintro (h | ⟨-, -, hge, hlt⟩)
    · exact h
    · rw [UInt64.le_iff_toNat_le] at hge
      rw [UInt64.lt_iff_toNat_lt] at hlt
      omega
  | succ n ih =>
    rw [freePages]
    by_cases hgt : p > first
    · have hp4 : 4096 ≤ p.toNat := by have := UInt64.lt_iff_toNat_lt.mp hgt; omega
      have hsub := toNat_sub_pageSize hp4
      have hp' : (p - pageSize).toNat % 4096 = 0 := by omega
      have hn' : (p - pageSize).toNat ≤ first.toNat + n * 4096 := by omega
      have hfirst' : first ≤ p - pageSize := by
        rw [UInt64.le_iff_toNat_le, hsub]
        have := UInt64.lt_iff_toNat_lt.mp hgt
        omega
      rw [if_pos hgt]
      dsimp only
      -- the pages the rest of the loop frees, and the one this round is about
      have hcases (q : UInt64) (hq : Managed q) : first ≤ q ∧ q < p ↔
          q = p - pageSize ∨ first ≤ q ∧ q < p - pageSize := by
        rw [page_below_cases hp hq.aligned hgt]
        constructor
        · rintro (⟨h, -⟩ | h)
          · exact Or.inl h
          · exact Or.inr h
        · rintro (rfl | h)
          · exact Or.inl ⟨rfl, hfirst'⟩
          · exact Or.inr h
      -- a round that leaves its page out
      have hskip (hout : Managed (p - pageSize) → isReserved reserved (p - pageSize) = true) :
          WellFormed (freePages reserved first n (p - pageSize) s) ∧
            ∀ q, FreeFrame (freePages reserved first n (p - pageSize) s) q ↔ FreeFrame s q ∨
              (Managed q ∧ isReserved reserved q = false ∧ first ≤ q ∧ q < p) := by
        obtain ⟨hwf, hfree⟩ := ih hp' hn' hs
        refine ⟨hwf, fun q => (hfree q).trans (or_congr_right ?_)⟩
        constructor
        · rintro ⟨hm, hr, h⟩
          exact ⟨hm, hr, (hcases q hm).mpr (Or.inr h)⟩
        · rintro ⟨hm, hr, h⟩
          rcases (hcases q hm).mp h with rfl | h
          · rw [hout hm] at hr
            cases hr
          · exact ⟨hm, hr, h⟩
      by_cases hz : p - pageSize = 0
      · rw [if_pos hz]
        exact hskip fun hm => absurd hz hm.ne_zero
      · rw [if_neg hz]
        cases hres : isReserved reserved (p - pageSize) with
        | true => exact hskip fun _ => hres
        | false =>
          by_cases hman : Managed (p - pageSize)
          · obtain ⟨hwf, hfree⟩ := ih hp' hn' (pfaFree_wellFormed hs hman)
            refine ⟨hwf, fun q => ?_⟩
            refine (hfree q).trans ?_
            rw [freeFrame_pfaFree hs hman, or_assoc]
            refine or_congr_right ?_
            constructor
            · rintro (rfl | ⟨hm, hr, h⟩)
              · exact ⟨hman, hres, (hcases _ hman).mpr (Or.inl rfl)⟩
              · exact ⟨hm, hr, (hcases q hm).mpr (Or.inr h)⟩
            · rintro ⟨hm, hr, h⟩
              exact ((hcases q hm).mp h).imp id fun h => ⟨hm, hr, h⟩
          · rw [pfaFree_unmanaged hs hp' hman]
            exact hskip fun hm => absurd hm hman
    · rw [if_neg hgt]
      refine ⟨hs, fun q => ⟨Or.inl, ?_⟩⟩
      rintro (h | ⟨-, -, hge, hlt⟩)
      · exact h
      · rw [gt_iff_lt, UInt64.lt_iff_toNat_lt] at hgt
        rw [UInt64.le_iff_toNat_le] at hge
        rw [UInt64.lt_iff_toNat_lt] at hlt
        omega

theorem freeEntry_spec (reserved : List (UInt64 × UInt64)) (e : MemmapEntry) {s : Pfa}
    (hs : WellFormed s) :
    WellFormed (freeEntry reserved s e) ∧
      ∀ q, FreeFrame (freeEntry reserved s e) q ↔
        FreeFrame s q ∨ (Managed q ∧ isReserved reserved q = false ∧
          e.usable = true ∧ e.regionStart ≤ q ∧ q < e.regionEnd) := by
  unfold freeEntry
  cases hu : e.usable with
  | false => exact ⟨hs, fun q => by simp⟩
  | true =>
    have hspec := freePages_spec reserved (regionStart_aligned e) (e.regionEnd.toNat / 4096)
      (regionEnd_aligned e) (by have := regionEnd_aligned e; omega) hs
    simpa using hspec

theorem foldl_freeEntry_spec (reserved : List (UInt64 × UInt64)) (entries : List MemmapEntry)
    {s : Pfa} (hs : WellFormed s) :
    WellFormed (entries.foldl (freeEntry reserved) s) ∧
      ∀ q, FreeFrame (entries.foldl (freeEntry reserved) s) q ↔
        FreeFrame s q ∨ (UsablePage entries q ∧ isReserved reserved q = false) := by
  induction entries generalizing s with
  | nil => exact ⟨hs, fun q => by simp [UsablePage]⟩
  | cons e entries ih =>
    obtain ⟨hwf, hfree⟩ := freeEntry_spec reserved e hs
    obtain ⟨hwf', hfree'⟩ := ih hwf
    refine ⟨hwf', fun q => ?_⟩
    rw [List.foldl_cons, hfree', hfree, or_assoc]
    refine or_congr_right ?_
    simp only [UsablePage, List.mem_cons, exists_eq_or_imp]
    constructor
    · rintro (⟨hm, hr, he⟩ | ⟨⟨hm, he⟩, hr⟩)
      · exact ⟨⟨hm, Or.inl he⟩, hr⟩
      · exact ⟨⟨hm, Or.inr he⟩, hr⟩
    · rintro ⟨⟨hm, he | he⟩, hr⟩
      · exact Or.inl ⟨hm, hr, he⟩
      · exact Or.inr ⟨⟨hm, he⟩, hr⟩

/-- A successful `mm_init` leaves a well-formed allocator whose free frames are the
usable pages outside the reserved range. -/
theorem mmInit_spec {hhdmOffset : UInt64} {entries : List MemmapEntry} {m : State}
    (h : mmInit hhdmOffset (some entries) = some m) :
    WellFormed m.pfa ∧
      ∀ q, FreeFrame m.pfa q ↔ UsablePage entries q ∧
        isReserved [(bitmapPlacementAddr entries, bitmapPlacementAddr entries + reqSize)] q = false := by
  unfold mmInit at h
  dsimp only at h
  by_cases hz : bitmapPlacementAddr entries = 0
  · rw [if_pos hz] at h
    contradiction
  rw [if_neg hz, Option.some.injEq] at h
  subst h
  obtain ⟨hwf, hfree⟩ := foldl_freeEntry_spec
    [(bitmapPlacementAddr entries, bitmapPlacementAddr entries + reqSize)] entries
    clearedPfa_wellFormed
  refine ⟨hwf, fun q => (hfree q).trans ?_⟩
  simp [not_freeFrame_clearedPfa]

end Rhoudveine.Mm
