import Rhoudveine.Mm.Client

/-!
# Where the bitmaps live

`mm_init` looks for and reserves 32 pages, while the two bitmaps it places there
take `2 * BITMAP_SIZE` bytes, 128 pages.  This module says for which memory maps
the bitmaps are inside usable memory and out of reach of the allocator.
-/

namespace Rhoudveine.Mm

/-- The physical address of the first byte of `low_bitmap`. -/
def State.bitmapsStart (hhdmOffset : UInt64) (m : State) : ℕ := (m.lowBitmapPtr - hhdmOffset).toNat

/-- One past the last byte of `bitmap`, which follows `low_bitmap` directly. -/
def State.bitmapsEnd (hhdmOffset : UInt64) (m : State) : ℕ :=
  m.bitmapsStart hhdmOffset + 2 * bitmapSize

/-- The bytes `[lo, hi)` lie in the memory of one usable entry. -/
def InOneRegion (entries : List MemmapEntry) (lo hi : ℕ) : Prop :=
  ∃ e ∈ entries, e.usable = true ∧ e.base.toNat ≤ lo ∧ hi ≤ e.base.toNat + e.length.toNat

/-- The frame at `p` shares no byte with `[lo, hi)`. -/
def FrameDisjoint (p : UInt64) (lo hi : ℕ) : Prop := p.toNat + 4096 ≤ lo ∨ hi ≤ p.toNat

/-- The bitmaps are inside one usable region, and no frame held in any state that
the allocator's calls can reach overlaps them. -/
def BitmapsSafe (hhdmOffset : UInt64) (entries : List MemmapEntry) (m : State) : Prop :=
  InOneRegion entries (m.bitmapsStart hhdmOffset) (m.bitmapsEnd hhdmOffset) ∧
    ∀ calls c, Run Client.Step ⟨m.pfa, []⟩ calls c →
      ∀ p ∈ c.held, FrameDisjoint p (m.bitmapsStart hhdmOffset) (m.bitmapsEnd hhdmOffset)

/-- The entry the bitmaps are placed in: the first usable one with 32 whole pages
and a start other than 0. -/
def FirstFit (entries : List MemmapEntry) (e : MemmapEntry) : Prop :=
  ∃ pre post, entries = pre ++ e :: post ∧ (e.usable && e.fits && e.regionStart != 0) = true ∧
    ∀ e' ∈ pre, (e'.usable && e'.fits && e'.regionStart != 0) = false

/-- From the start of the first fitting entry there is room for both bitmaps in one
usable entry, and no page of the usable entries that the allocator has a bit for
reaches into the part of the bitmaps past the 32 reserved pages. -/
def RoomForBitmaps (entries : List MemmapEntry) : Prop :=
  ∃ e, FirstFit entries e ∧
    InOneRegion entries e.regionStart.toNat (e.regionStart.toNat + 2 * bitmapSize) ∧
    ∀ p, UsablePage entries p →
      FrameDisjoint p (e.regionStart.toNat + reqSize.toNat) (e.regionStart.toNat + 2 * bitmapSize)

/-! ## The placement loop -/

/-- The placement loop keeps an address it has already chosen. -/
theorem foldl_placement_of_ne_zero (entries : List MemmapEntry) {a : UInt64} (ha : a ≠ 0) :
    entries.foldl
      (fun placement e =>
        if !e.usable then placement
        else if e.fits then (if placement = 0 then e.regionStart else placement)
        else placement) a = a := by
  induction entries with
  | nil => rfl
  | cons e entries ih =>
    rw [List.foldl_cons, if_neg ha]
    simpa using ih

theorem bitmapPlacementAddr_cons (e : MemmapEntry) (entries : List MemmapEntry) :
    bitmapPlacementAddr (e :: entries) =
      if (e.usable && e.fits && e.regionStart != 0) = true then e.regionStart
      else bitmapPlacementAddr entries := by
  unfold bitmapPlacementAddr
  rw [List.foldl_cons]
  cases hu : e.usable
  · simp
  cases hf : e.fits
  · simp
  by_cases hz : e.regionStart = 0
  · simp [hz]
  · simpa [hz] using foldl_placement_of_ne_zero entries hz

/-- A placement is found exactly when some entry fits first, and it is that entry's
rounded start. -/
theorem exists_firstFit {entries : List MemmapEntry} (h : bitmapPlacementAddr entries ≠ 0) :
    ∃ e, FirstFit entries e ∧ bitmapPlacementAddr entries = e.regionStart := by
  induction entries with
  | nil => exact absurd rfl h
  | cons e entries ih =>
    rw [bitmapPlacementAddr_cons] at h ⊢
    by_cases he : (e.usable && e.fits && e.regionStart != 0) = true
    · rw [if_pos he]
      exact ⟨e, ⟨[], entries, rfl, he, by simp⟩, rfl⟩
    · rw [if_neg he] at h ⊢
      obtain ⟨e', ⟨pre, post, rfl, hfit, hpre⟩, heq⟩ := ih h
      refine ⟨e', ⟨e :: pre, post, rfl, hfit, fun x hx => ?_⟩, heq⟩
      rcases List.mem_cons.mp hx with rfl | hx
      · exact Bool.eq_false_iff.mpr he
      · exact hpre x hx

theorem FirstFit.placement {entries : List MemmapEntry} {e : MemmapEntry}
    (h : FirstFit entries e) : bitmapPlacementAddr entries = e.regionStart := by
  obtain ⟨pre, post, rfl, hfit, hpre⟩ := h
  induction pre with
  | nil => rw [List.nil_append, bitmapPlacementAddr_cons, if_pos hfit]
  | cons x pre ih =>
    have hx := hpre x List.mem_cons_self
    rw [List.cons_append, bitmapPlacementAddr_cons, if_neg (Bool.eq_false_iff.mp hx)]
    exact ih fun e' he' => hpre e' (List.mem_cons_of_mem x he')

/-- The bitmaps start at the placement address. -/
theorem mmInit_bitmapsStart {hhdmOffset : UInt64} {entries : List MemmapEntry} {m : State}
    (h : mmInit hhdmOffset (some entries) = some m) :
    bitmapPlacementAddr entries ≠ 0 ∧
      m.bitmapsStart hhdmOffset = (bitmapPlacementAddr entries).toNat ∧
      m.bitmapPtr = m.lowBitmapPtr + UInt64.ofNat bitmapSize := by
  unfold mmInit at h
  dsimp only at h
  by_cases hz : bitmapPlacementAddr entries = 0
  · rw [if_pos hz] at h
    contradiction
  rw [if_neg hz, Option.some.injEq] at h
  subst h
  refine ⟨hz, ?_, ?_⟩
  · simp only [State.bitmapsStart, UInt64.add_sub_cancel]
  · simp only [UInt64.add_assoc, UInt64.add_comm hhdmOffset]

/-! ## The reserved range -/

theorem toNat_reqSize : reqSize.toNat = 131072 := rfl

/-- When the reserved range does not wrap, an unreserved page is disjoint from it. -/
theorem isReserved_eq_false {a p : UInt64} (ha : a.toNat + reqSize.toNat < 2 ^ 64)
    (hp : p.toNat + 4096 < 2 ^ 64) :
    isReserved [(a, a + reqSize)] p = false ↔ FrameDisjoint p a.toNat (a.toNat + reqSize.toNat) := by
  have hsum : (a + reqSize).toNat = a.toNat + reqSize.toNat := by
    rw [UInt64.toNat_add, Nat.mod_eq_of_lt ha]
  have hpage : (p + pageSize).toNat = p.toNat + 4096 := by
    have : pageSize.toNat = 4096 := rfl
    rw [UInt64.toNat_add, this, Nat.mod_eq_of_lt hp]
  simp only [isReserved, List.any_cons, List.any_nil, Bool.or_false, Bool.and_eq_false_iff,
    decide_eq_false_iff_not, FrameDisjoint, gt_iff_lt, UInt64.lt_iff_toNat_lt, hsum, hpage]
  omega

/-- A fitting entry ends below `2^64`, so the range reserved at its start does not wrap. -/
theorem fits_no_wrap {e : MemmapEntry} (h : e.fits = true) :
    e.regionStart.toNat + reqSize.toNat < 2 ^ 64 := by
  simp only [MemmapEntry.fits, Bool.and_eq_true, decide_eq_true_eq, gt_iff_lt,
    ge_iff_le, UInt64.lt_iff_toNat_lt, UInt64.le_iff_toNat_le] at h
  obtain ⟨hlt, hge⟩ := h
  rw [UInt64.toNat_sub_of_le _ _ (UInt64.le_iff_toNat_le.mpr (by omega))] at hge
  have := e.regionEnd.toNat_lt
  omega

/-- The frames free after `mm_init`, in terms of the first fitting entry. -/
theorem mmInit_freeFrame {hhdmOffset : UInt64} {entries : List MemmapEntry} {m : State}
    (h : mmInit hhdmOffset (some entries) = some m) {e : MemmapEntry} (he : FirstFit entries e)
    (p : UInt64) :
    FreeFrame m.pfa p ↔ UsablePage entries p ∧
      FrameDisjoint p e.regionStart.toNat (e.regionStart.toNat + reqSize.toNat) := by
  have hplace := he.placement
  have hfits : e.fits = true := by
    obtain ⟨-, -, -, hfit, -⟩ := he
    simp only [Bool.and_eq_true] at hfit
    exact hfit.1.2
  rw [(mmInit_spec h).2 p, hplace]
  refine and_congr_right fun hp => isReserved_eq_false (fits_no_wrap hfits) ?_
  have := hp.1.lt_end
  rw [managedEnd_eq] at this
  omega

/-- A frame held in a reachable state was free after `mm_init`, and every frame free
then is held in some reachable state. -/
theorem exists_held_iff {hhdmOffset : UInt64} {entries : List MemmapEntry} {m : State}
    (h : mmInit hhdmOffset (some entries) = some m) (p : UInt64) :
    (∃ calls c, Run Client.Step ⟨m.pfa, []⟩ calls c ∧ p ∈ c.held) ↔ FreeFrame m.pfa p := by
  constructor
  · rintro ⟨calls, c, hrun, hp⟩
    exact (((mmInit_inv h).run hrun).pool_iff p).mp (Or.inr hp)
  · exact fun hp => exists_run_held (mmInit_inv h) hp

/-- Page-aligned start of the bitmaps: a page outside both the reserved pages and the
rest of the bitmaps is outside the bitmaps, and conversely. -/
theorem frameDisjoint_split {p : UInt64} {a : ℕ} (hp : p.toNat % 4096 = 0) (ha : a % 4096 = 0) :
    FrameDisjoint p a (a + 2 * bitmapSize) ↔
      FrameDisjoint p a (a + reqSize.toNat) ∧
        FrameDisjoint p (a + reqSize.toNat) (a + 2 * bitmapSize) := by
  simp only [FrameDisjoint, toNat_reqSize, bitmapSize_eq]
  omega

/-- The bitmaps are safe for exactly the memory maps that leave room for them: those
whose first fitting entry is followed by enough usable memory that the allocator
does not manage. -/
theorem bitmapsSafe_iff_roomForBitmaps {hhdmOffset : UInt64} {entries : List MemmapEntry} {m : State}
    (h : mmInit hhdmOffset (some entries) = some m) :
    BitmapsSafe hhdmOffset entries m ↔ RoomForBitmaps entries := by
  obtain ⟨hne, hstart, -⟩ := mmInit_bitmapsStart h
  obtain ⟨e, he, hplace⟩ := exists_firstFit hne
  rw [hplace] at hstart
  have hend : m.bitmapsEnd hhdmOffset = e.regionStart.toNat + 2 * bitmapSize := by
    rw [State.bitmapsEnd, hstart]
  have halign := regionStart_aligned e
  unfold BitmapsSafe
  rw [hend, hstart]
  constructor
  · rintro ⟨hregion, hheld⟩
    refine ⟨e, he, hregion, fun p hp => ?_⟩
    by_cases hres : FrameDisjoint p e.regionStart.toNat (e.regionStart.toNat + reqSize.toNat)
    · obtain ⟨calls, c, hrun, hmem⟩ :=
        (exists_held_iff h p).mpr ((mmInit_freeFrame h he p).mpr ⟨hp, hres⟩)
      exact ((frameDisjoint_split hp.1.aligned halign).mp (hheld calls c hrun p hmem)).2
    · -- a reserved page ends before the part past the reserved pages begins
      have := hp.1.aligned
      simp only [FrameDisjoint, toNat_reqSize] at hres ⊢
      omega
  · rintro ⟨e', he', hregion, hdisj⟩
    rw [← hplace, he'.placement]
    refine ⟨hregion, fun calls c hrun p hmem => ?_⟩
    have hfree := (mmInit_freeFrame h he' p).mp ((exists_held_iff h p).mp ⟨calls, c, hrun, hmem⟩)
    exact (frameDisjoint_split hfree.1.1.aligned (regionStart_aligned e')).mpr
      ⟨hfree.2, hdisj p hfree.1⟩

/-! ## Two memory maps -/

/-- One usable megabyte at 1 MiB.  The bitmaps take the first half of it, and the
frame at 0x120000 is free, so a run of the allocator hands out part of `low_bitmap`. -/
theorem bitmaps_handed_out :
    ¬ ∀ (entries : List MemmapEntry) (m : State),
      mmInit 0xFFFF800000000000 (some entries) = some m →
        BitmapsSafe 0xFFFF800000000000 entries m := by
  intro hall
  obtain ⟨m, hm⟩ := mmInit_isSome 0xFFFF800000000000
    (show bitmapPlacementAddr [⟨0x100000, 0x100000, 0⟩] ≠ 0 by decide)
  obtain ⟨-, hheld⟩ := hall _ m hm
  have hfit : FirstFit [⟨0x100000, 0x100000, 0⟩] ⟨0x100000, 0x100000, 0⟩ :=
    ⟨[], [], rfl, by decide, by simp⟩
  have hfree : FreeFrame m.pfa 0x120000 := by
    refine (mmInit_freeFrame hm hfit 0x120000).mpr ⟨⟨⟨rfl, by decide, by decide⟩, ?_⟩, by
      simp only [FrameDisjoint]; decide⟩
    exact ⟨_, List.mem_cons_self, by decide, by decide, by decide⟩
  obtain ⟨calls, c, hrun, hmem⟩ := (exists_held_iff hm 0x120000).mpr hfree
  have hdisj := hheld calls c hrun _ hmem
  rw [State.bitmapsEnd, (mmInit_bitmapsStart hm).2.1, hfit.placement] at hdisj
  revert hdisj
  simp only [FrameDisjoint]
  decide

/-- A usable megabyte at 12 GiB is beyond both bitmaps' frames, so nothing there is
ever handed out. -/
theorem bitmapsSafe_at_twelve_gib :
    ∃ m, mmInit 0xFFFF800000000000 (some [⟨0x300000000, 0x100000, 0⟩]) = some m ∧
      BitmapsSafe 0xFFFF800000000000 [⟨0x300000000, 0x100000, 0⟩] m := by
  obtain ⟨m, hm⟩ := mmInit_isSome 0xFFFF800000000000
    (show bitmapPlacementAddr [⟨0x300000000, 0x100000, 0⟩] ≠ 0 by decide)
  refine ⟨m, hm, (bitmapsSafe_iff_roomForBitmaps hm).mpr ?_⟩
  refine ⟨⟨0x300000000, 0x100000, 0⟩, ⟨[], [], rfl, by decide, by simp⟩,
    ⟨_, List.mem_cons_self, by decide, by decide, by decide⟩, fun p hp => Or.inl ?_⟩
  have hend := hp.1.lt_end
  have ha := hp.1.aligned
  rw [managedEnd_eq] at hend
  have hs : (MemmapEntry.regionStart ⟨0x300000000, 0x100000, 0⟩).toNat = 12884901888 := by decide
  rw [hs]
  omega

end Rhoudveine.Mm
