import Rhoudveine.Mm.MapPage

/-!
# `mmio_remap`

Each call maps a run of pages at a bump pointer, which starts 2 MiB below the kernel image,
and maps at most 64 of them.  A sequence of calls does what its callers expect exactly when
no request needs more than 64 pages and all of them together fit below the kernel.
-/

namespace Rhoudveine.Mm
open Words

/-- The arguments of a call. -/
structure MmioRequest where
  physicalAddr : UInt64
  size : UInt64

/-- The page tables and the static variable `next_mmio_addr`. -/
structure Mmio where
  vm : Vm
  nextMmioAddr : UInt64

def mmioFlags : UInt64 := pagePresent ||| pageRw ||| pagePcd ||| pagePwt ||| pageNoExec

namespace MmioRequest

def physBase (r : MmioRequest) : UInt64 := r.physicalAddr &&& ~~~(0xFFF : UInt64)

def offset (r : MmioRequest) : UInt64 := r.physicalAddr &&& 0xFFF

/-- `(size + offset + PAGE_SIZE - 1) / PAGE_SIZE`, at least 1 and at most 64. -/
def pagesNeeded (r : MmioRequest) : UInt64 :=
  let pages := (r.size + r.offset + pageSize - 1) / pageSize
  let pages := if pages = 0 then 1 else pages
  if pages > 64 then 64 else pages

/-- The calls of `map_page` the loop makes. -/
def mapCalls (r : MmioRequest) (virtBase : UInt64) : List MapCall :=
  (List.range r.pagesNeeded.toNat).map fun i =>
    ⟨r.physBase + UInt64.ofNat i * pageSize, virtBase + UInt64.ofNat i * pageSize, mmioFlags⟩

end MmioRequest

def mmioRemap (s : Mmio) (r : MmioRequest) : UInt64 × Mmio :=
  let virtBase := s.nextMmioAddr
  (virtBase + r.offset,
    { vm := mapAll s.vm (r.mapCalls virtBase)
      nextMmioAddr := s.nextMmioAddr + r.pagesNeeded * pageSize })

/-- A sequence of calls, with the pointer each returns. -/
def mmioRemapAll (s : Mmio) : List MmioRequest → List (MmioRequest × UInt64) × Mmio
  | [] => ([], s)
  | r :: rs =>
    let (v, s) := mmioRemap s r
    let (vs, s) := mmioRemapAll s rs
    ((r, v) :: vs, s)

/-- All calls of `map_page` a sequence makes, from a value of `next_mmio_addr` on. -/
def allMapCalls (next : UInt64) : List MmioRequest → List MapCall
  | [] => []
  | r :: rs => r.mapCalls next ++ allMapCalls (next + r.pagesNeeded * pageSize) rs

/-! ## What a caller expects -/

/-- The first page of the range that starts at `v`, and the page after its last one. -/
def firstPage (v : UInt64) : ℕ := v.toNat / 4096

def endPage (v : UInt64) (r : MmioRequest) : ℕ := (v.toNat + r.size.toNat + 4095) / 4096

/-- Where the linker script places the kernel image. -/
def kernelStart : UInt64 := 0xffffffff80200000

/-- Every byte of every range is mapped to its physical address, and the ranges are disjoint
from one another and from the kernel image. -/
structure RemapOk (kernelEnd : UInt64) (placed : List (MmioRequest × UInt64)) (vm : Vm) : Prop where
  mapped : ∀ r v, (r, v) ∈ placed → ∀ i < r.size.toNat,
    (vm.physAt (v + UInt64.ofNat i)).map UInt64.toNat = some (r.physicalAddr.toNat + i)
  disjoint : placed.Pairwise fun p q =>
    endPage p.2 p.1 ≤ firstPage q.2 ∨ endPage q.2 q.1 ≤ firstPage p.2
  kernel : ∀ r v, (r, v) ∈ placed →
    endPage v r * 4096 ≤ kernelStart.toNat ∨ kernelEnd.toNat ≤ firstPage v * 4096

/-- The pages a request needs. -/
def MmioRequest.pageCount (r : MmioRequest) : ℕ :=
  (r.physicalAddr.toNat % 4096 + r.size.toNat + 4095) / 4096

/-- No request needs more than 64 pages or reaches beyond physical memory, and together they
fit into the 512 pages below the kernel. -/
def RequestsFit (rs : List MmioRequest) : Prop :=
  (∀ r ∈ rs, r.pageCount ≤ 64 ∧ r.physicalAddr.toNat + r.size.toNat ≤ 2 ^ 52) ∧
    (rs.map MmioRequest.pageCount).sum ≤ 512

/-! ## Pages of the window -/

/-- Where `mm_init` starts the window. -/
def mmioStart : ℕ := 0xFFFFFFFF80000000

/-- Page `n` of the window. -/
def window (n : ℕ) : UInt64 := UInt64.ofNat (mmioStart + 4096 * n)

theorem toNat_window {n : ℕ} (hn : n ≤ 512) : (window n).toNat = mmioStart + 4096 * n := by
  rw [window, UInt64.toNat_ofNat', mmioStart]
  omega

theorem window_add {n k : ℕ} (hn : n + k ≤ 512) :
    window n + UInt64.ofNat k * pageSize = window (n + k) := by
  have hp : pageSize.toNat = 4096 := rfl
  apply UInt64.toNat_inj.mp
  rw [UInt64.toNat_add, UInt64.toNat_mul, UInt64.toNat_ofNat', hp, toNat_window (by omega),
    toNat_window hn, mmioStart]
  omega

theorem indices_window_inj {n k : ℕ} (hn : n < 512) (hk : k < 512)
    (h : indices (window n) = indices (window k)) : n = k := by
  rw [indices_eq_iff, toNat_window hn.le, toNat_window hk.le, mmioStart] at h
  omega

/-! ## Requests -/

namespace MmioRequest

variable (r : MmioRequest)

theorem toNat_offset : r.offset.toNat = r.physicalAddr.toNat % 4096 :=
  toNat_and_low r.physicalAddr 0xFFF (k := 12) rfl

theorem toNat_physBase : r.physBase.toNat = r.physicalAddr.toNat / 4096 * 4096 :=
  toNat_and_not_low r.physicalAddr 0xFFF (k := 12) rfl

theorem toNat_rounded : ((r.size + r.offset + pageSize - 1) / pageSize).toNat =
    (r.physicalAddr.toNat % 4096 + r.size.toNat + 4095) % 2 ^ 64 / 4096 := by
  have hp : pageSize.toNat = 4096 := rfl
  have h1 : (1 : UInt64).toNat = 1 := rfl
  rw [UInt64.toNat_div, UInt64.toNat_sub, UInt64.toNat_add, UInt64.toNat_add, toNat_offset, hp, h1]
  have := r.size.toNat_lt
  omega

theorem toNat_pagesNeeded : r.pagesNeeded.toNat =
    min 64 (max 1 ((r.physicalAddr.toNat % 4096 + r.size.toNat + 4095) % 2 ^ 64 / 4096)) := by
  have h1 : (1 : UInt64).toNat = 1 := rfl
  have h64 : (64 : UInt64).toNat = 64 := rfl
  have hround := r.toNat_rounded
  unfold pagesNeeded
  generalize (r.size + r.offset + pageSize - 1) / pageSize = pages at hround ⊢
  dsimp only
  have hz : pages = 0 ↔ pages.toNat = 0 := by rw [← UInt64.toNat_inj]; rfl
  by_cases h0 : pages = 0
  · rw [if_pos h0, if_neg (by decide), h1]
    rw [hz] at h0
    omega
  · rw [if_neg h0]
    rw [hz] at h0
    by_cases hgt : pages > 64
    · rw [if_pos hgt, h64]
      rw [gt_iff_lt, UInt64.lt_iff_toNat_lt, h64] at hgt
      omega
    · rw [if_neg hgt]
      rw [gt_iff_lt, UInt64.lt_iff_toNat_lt, h64] at hgt
      omega

/-- A request of at most 512 pages gets its pages or 64 of them. -/
theorem pagesNeeded_of_le (hsize : 1 ≤ r.size.toNat) (h : r.pageCount ≤ 512) :
    r.pagesNeeded.toNat = min 64 r.pageCount := by
  unfold pageCount at h ⊢
  rw [r.toNat_pagesNeeded]
  omega

theorem pageCount_pos (hsize : 1 ≤ r.size.toNat) : 1 ≤ r.pageCount := by
  unfold pageCount
  omega

theorem pagesNeeded_pos : 1 ≤ r.pagesNeeded.toNat := by
  rw [r.toNat_pagesNeeded]
  omega

theorem pagesNeeded_le : r.pagesNeeded.toNat ≤ 64 := by
  rw [r.toNat_pagesNeeded]
  omega

theorem offset_lt : r.offset.toNat < 4096 := by
  rw [r.toNat_offset]
  omega

/-- The pages of a request placed at page `n` of the window. -/
theorem toNat_window_add_offset {n : ℕ} (hn : n ≤ 512) :
    (window n + r.offset).toNat = mmioStart + 4096 * n + r.physicalAddr.toNat % 4096 := by
  rw [UInt64.toNat_add, toNat_window hn, toNat_offset, mmioStart]
  omega

theorem firstPage_window {n : ℕ} (hn : n ≤ 512) :
    firstPage (window n + r.offset) = mmioStart / 4096 + n := by
  rw [firstPage, r.toNat_window_add_offset hn, mmioStart]
  omega

theorem endPage_window {n : ℕ} (hn : n ≤ 512) :
    endPage (window n + r.offset) r = mmioStart / 4096 + n + r.pageCount := by
  rw [endPage, pageCount, r.toNat_window_add_offset hn, mmioStart]
  omega

theorem next_window {n : ℕ} (hn : n + r.pagesNeeded.toNat ≤ 512) :
    window n + r.pagesNeeded * pageSize = window (n + r.pagesNeeded.toNat) := by
  rw [← window_add hn, UInt64.ofNat_toNat]

end MmioRequest

/-! ## Sequences -/

/-- The pointers a sequence of calls returns. -/
def placedFrom (next : UInt64) : List MmioRequest → List (MmioRequest × UInt64)
  | [] => []
  | r :: rs => (r, next + r.offset) :: placedFrom (next + r.pagesNeeded * pageSize) rs

theorem mmioRemapAll_eq (s : Mmio) (rs : List MmioRequest) :
    (mmioRemapAll s rs).1 = placedFrom s.nextMmioAddr rs ∧
      (mmioRemapAll s rs).2.vm = mapAll s.vm (allMapCalls s.nextMmioAddr rs) := by
  induction rs generalizing s with
  | nil => exact ⟨rfl, rfl⟩
  | cons r rs ih =>
    obtain ⟨hplaced, hvm⟩ := ih (mmioRemap s r).2
    constructor
    · rw [mmioRemapAll, placedFrom]
      exact congrArg _ hplaced
    · rw [mmioRemapAll, allMapCalls, mapAll, List.foldl_append]
      exact hvm

/-- The pages a sequence takes from the window. -/
def takenPages (rs : List MmioRequest) : ℕ := (rs.map fun r => r.pagesNeeded.toNat).sum

theorem takenPages_cons (r : MmioRequest) (rs : List MmioRequest) :
    takenPages (r :: rs) = r.pagesNeeded.toNat + takenPages rs := by
  rw [takenPages, List.map_cons, List.sum_cons, takenPages]

/-- The calls of `map_page` are for consecutive pages of the window. -/
theorem map_virt_allMapCalls (rs : List MmioRequest) {n : ℕ} (hn : n + takenPages rs ≤ 512) :
    (allMapCalls (window n) rs).map MapCall.virt = (List.range' n (takenPages rs)).map window := by
  induction rs generalizing n with
  | nil => rfl
  | cons r rs ih =>
    rw [takenPages_cons] at hn ⊢
    have hfirst : (r.mapCalls (window n)).map MapCall.virt =
        (List.range' n r.pagesNeeded.toNat).map window := by
      rw [MmioRequest.mapCalls, List.map_map, List.range'_eq_map_range, List.map_map]
      apply List.map_congr_left
      intro i hi
      exact window_add (by have := List.mem_range.mp hi; omega)
    rw [allMapCalls, List.map_append, hfirst, r.next_window (by omega), ih (by omega),
      ← List.map_append, List.range'_append_1]

theorem mem_allMapCalls {rs : List MmioRequest} {n : ℕ} (hn : n + takenPages rs ≤ 512)
    {c : MapCall} (hc : c ∈ allMapCalls (window n) rs) :
    ∃ k, n ≤ k ∧ k < n + takenPages rs ∧ c.virt = window k := by
  have hmem : c.virt ∈ (allMapCalls (window n) rs).map MapCall.virt := List.mem_map_of_mem hc
  rw [map_virt_allMapCalls rs hn] at hmem
  obtain ⟨k, hk, heq⟩ := List.mem_map.mp hmem
  obtain ⟨hge, hlt⟩ := List.mem_range'_1.mp hk
  exact ⟨k, hge, hlt, heq.symm⟩

theorem allMapCalls_valid (rs : List MmioRequest) (next : UInt64) :
    ∀ c ∈ allMapCalls next rs, c.Valid := by
  have hp : pageSize.toNat = 4096 := rfl
  induction rs generalizing next with
  | nil => simp [allMapCalls]
  | cons r rs ih =>
    intro c hc
    rcases List.mem_append.mp hc with hc | hc
    · obtain ⟨i, -, rfl⟩ := List.mem_map.mp hc
      constructor
      · dsimp only
        rw [UInt64.toNat_add, UInt64.toNat_mul, hp, r.toNat_physBase]
        omega
      · exact show bit mmioFlags 0 = true by decide
    · exact ih _ c hc

/-- Where a request is placed, and the calls made for it. -/
theorem mem_placedFrom {rs : List MmioRequest} {n : ℕ} (hn : n + takenPages rs ≤ 512)
    {r : MmioRequest} {v : UInt64} (h : (r, v) ∈ placedFrom (window n) rs) :
    r ∈ rs ∧ ∃ k, n ≤ k ∧ k + r.pagesNeeded.toNat ≤ n + takenPages rs ∧ v = window k + r.offset ∧
      ∀ i < r.pagesNeeded.toNat,
        ⟨r.physBase + UInt64.ofNat i * pageSize, window (k + i), mmioFlags⟩ ∈
          allMapCalls (window n) rs := by
  induction rs generalizing n with
  | nil => cases h
  | cons d rs ih =>
    rw [takenPages_cons] at hn ⊢
    rcases List.mem_cons.mp h with heq | h
    · obtain ⟨rfl, rfl⟩ := Prod.mk.inj heq
      refine ⟨List.mem_cons_self, n, le_rfl, by omega, rfl, fun i hi => ?_⟩
      rw [← window_add (by omega : n + i ≤ 512)]
      apply List.mem_append_left
      exact List.mem_map.mpr ⟨i, List.mem_range.mpr hi, rfl⟩
    · rw [d.next_window (by omega)] at h
      obtain ⟨hr, k, hge, hle, hv, hcalls⟩ := ih (by omega) h
      refine ⟨List.mem_cons_of_mem d hr, k, by omega, by omega, hv, fun i hi => ?_⟩
      apply List.mem_append_right
      rw [d.next_window (by omega)]
      exact hcalls i hi

/-! ## The translation after a sequence -/

/-- The memory manager before the first call: the tree is well kept and the window is not
mapped. -/
structure MmioReady (s : Mmio) : Prop where
  ok : s.vm.TreeOk
  next : s.nextMmioAddr = 0xFFFFFFFF80000000
  unmapped : ∀ n < 512, s.vm.lookup (window n) = none
  noLarge : ∀ n < 512, s.vm.NoLarge (indices (window n))

theorem window_zero : window 0 = 0xFFFFFFFF80000000 := by decide

section ready

variable {s : Mmio} (hs : MmioReady s) {rs : List MmioRequest} (htaken : takenPages rs ≤ 512)
include hs htaken

theorem allMapCalls_noLarge : ∀ c ∈ allMapCalls (window 0) rs, s.vm.NoLarge (indices c.virt) := by
  intro c hc
  obtain ⟨k, -, hk, heq⟩ := mem_allMapCalls (by omega) hc
  rw [heq]
  exact hs.noLarge k (by omega)

theorem lookup_of_call
    (hframes : completed s.vm (allMapCalls (window 0) rs) = allMapCalls (window 0) rs)
    {c : MapCall} (hc : c ∈ allMapCalls (window 0) rs) {v : UInt64}
    (hv : indices v = indices c.virt) :
    (mapAll s.vm (allMapCalls (window 0) rs)).lookup v = some (c.leaf, 0) := by
  apply lookup_mapAll_of_mem hs.ok (allMapCalls_valid rs _) (allMapCalls_noLarge hs htaken) _ hv
  · -- the calls are for different pages
    rw [hframes]
    intro d hd hdc
    have hnodup : ((allMapCalls (window 0) rs).map MapCall.virt).Nodup := by
      rw [map_virt_allMapCalls rs (by omega)]
      apply List.Nodup.map_on _ List.nodup_range'
      intro n hn k hk heq
      have hn' := (List.mem_range'_1.mp hn).2
      have hk' := (List.mem_range'_1.mp hk).2
      exact indices_window_inj (by omega) (by omega) (congrArg indices heq)
    obtain ⟨n, -, hn, hnd⟩ := mem_allMapCalls (by omega) hd
    obtain ⟨k, -, hk, hkc⟩ := mem_allMapCalls (by omega) hc
    rw [hnd, hkc] at hdc
    have hnk := indices_window_inj (by omega) (by omega) hdc
    apply List.inj_on_of_nodup_map hnodup hd hc
    rw [hnd, hkc, hnk]
  · rw [hframes]
    exact hc

theorem lookup_past_taken {n : ℕ} (hge : takenPages rs ≤ n) (hn : n < 512) :
    (mapAll s.vm (allMapCalls (window 0) rs)).lookup (window n) = none := by
  rw [lookup_mapAll_of_not_mem hs.ok (allMapCalls_valid rs _) (allMapCalls_noLarge hs htaken)]
  · exact hs.unmapped n hn
  · intro d hd heq
    obtain ⟨k, -, hk, hkd⟩ := mem_allMapCalls (by omega) hd
    rw [hkd] at heq
    have := indices_window_inj hn (by omega) heq
    omega

end ready

theorem mmioFlags_and_paddrMask : mmioFlags &&& paddrMask = 0 := by decide

/-- A request that gets all its pages is mapped byte for byte. -/
theorem mapped_of_fits {vm : Vm} {r : MmioRequest} {k : ℕ} (hsize : 1 ≤ r.size.toNat)
    (hcount : r.pageCount ≤ 64) (hphys : r.physicalAddr.toNat + r.size.toNat ≤ 2 ^ 52)
    (hk : k + r.pagesNeeded.toNat ≤ 512)
    (hlookup : ∀ i < r.pagesNeeded.toNat, ∀ v, indices v = indices (window (k + i)) →
      vm.lookup v = some ((r.physBase + UInt64.ofNat i * pageSize) ||| mmioFlags, 0))
    {i : ℕ} (hi : i < r.size.toNat) :
    (vm.physAt (window k + r.offset + UInt64.ofNat i)).map UInt64.toNat =
      some (r.physicalAddr.toNat + i) := by
  have hneeded := r.pagesNeeded_of_le hsize (by omega)
  have hp : pageSize.toNat = 4096 := rfl
  have hsize' := r.size.toNat_lt
  -- the byte lies in page `j` of the request
  obtain ⟨j, hj⟩ : ∃ j, j = (r.physicalAddr.toNat % 4096 + i) / 4096 := ⟨_, rfl⟩
  have hjlt : j < r.pagesNeeded.toNat := by
    rw [hneeded, Nat.min_eq_right hcount, hj]
    unfold MmioRequest.pageCount
    omega
  have hv : (window k + r.offset + UInt64.ofNat i).toNat =
      mmioStart + 4096 * k + r.physicalAddr.toNat % 4096 + i := by
    rw [UInt64.toNat_add, r.toNat_window_add_offset (by omega), UInt64.toNat_ofNat', mmioStart]
    unfold MmioRequest.pageCount at hcount
    omega
  have hindex : indices (window k + r.offset + UInt64.ofNat i) = indices (window (k + j)) := by
    rw [indices_eq_iff, hv, toNat_window (by omega), mmioStart]
    omega
  have hframe : (r.physBase + UInt64.ofNat j * pageSize).toNat =
      r.physicalAddr.toNat / 4096 * 4096 + 4096 * j := by
    rw [UInt64.toNat_add, UInt64.toNat_mul, UInt64.toNat_ofNat', hp, r.toNat_physBase]
    omega
  obtain ⟨p, hp, hpv⟩ := physAt_of_lookup (by rw [hframe]; omega) (by rw [hframe]; omega)
    mmioFlags_and_paddrMask (hlookup j hjlt _ hindex)
  rw [hp, Option.map_some, hpv, hframe, hv, mmioStart]
  congr 1
  omega

/-! ## When the callers get what they expect -/

theorem pairwise_placedFrom {rs : List MmioRequest} {n : ℕ} (hn : n + takenPages rs ≤ 512)
    (hcount : ∀ r ∈ rs, r.pageCount = r.pagesNeeded.toNat) :
    (placedFrom (window n) rs).Pairwise fun p q =>
      endPage p.2 p.1 ≤ firstPage q.2 ∨ endPage q.2 q.1 ≤ firstPage p.2 := by
  induction rs generalizing n with
  | nil => exact List.Pairwise.nil
  | cons r rs ih =>
    rw [takenPages_cons] at hn
    rw [placedFrom, r.next_window (by omega)]
    apply List.Pairwise.cons
    · rintro ⟨d, v⟩ hd
      obtain ⟨-, k, hk, hle, rfl, -⟩ := mem_placedFrom (by omega) hd
      left
      rw [r.endPage_window (by omega), d.firstPage_window (by omega), hcount r List.mem_cons_self]
      omega
    · exact ih (by omega) fun d hd => hcount d (List.mem_cons_of_mem r hd)

/-- What the callers' expectations say about a sequence that starts at page `n`. -/
theorem fit_of_remapOk {kernelEnd : UInt64} (hend : kernelStart < kernelEnd)
    {rs : List MmioRequest} (hsize : ∀ r ∈ rs, 1 ≤ r.size.toNat) {n : ℕ} (hn : n ≤ 512) {vm : Vm}
    (hpast : ∀ k, n + takenPages rs ≤ k → k < 512 → vm.lookup (window k) = none)
    (h : RemapOk kernelEnd (placedFrom (window n) rs) vm) :
    (∀ r ∈ rs, r.pageCount ≤ 64) ∧ n + (rs.map MmioRequest.pageCount).sum ≤ 512 := by
  induction rs generalizing n with
  | nil => exact ⟨by simp, by simpa using hn⟩
  | cons r rs ih =>
    have hr := hsize r List.mem_cons_self
    have hpos := r.pageCount_pos hr
    rw [takenPages_cons] at hpast
    -- the range stays below the kernel
    have hbelow : n + r.pageCount ≤ 512 := by
      have hkernel := h.kernel r _ List.mem_cons_self
      have hks : kernelStart.toNat = mmioStart + 4096 * 512 := rfl
      have hke := UInt64.lt_iff_toNat_lt.mp hend
      rw [r.endPage_window hn, r.firstPage_window hn, hks] at hkernel
      rw [hks] at hke
      rw [mmioStart] at hkernel hke
      omega
    have hneeded := r.pagesNeeded_of_le hr (by omega)
    have hcount : r.pageCount ≤ 64 := by
      by_contra hgt
      have hcap : r.pagesNeeded.toNat = 64 := by omega
      cases rs with
      | nil =>
        -- the byte after the 64 pages is not mapped
        have hunmapped := hpast (n + 64) (by rw [hcap]; rfl) (by omega)
        have hbyte : 64 * 4096 - r.physicalAddr.toNat % 4096 < r.size.toNat := by
          unfold MmioRequest.pageCount at hgt
          omega
        have hmapped := h.mapped r _ List.mem_cons_self _ hbyte
        have hindex : window n + r.offset +
            UInt64.ofNat (64 * 4096 - r.physicalAddr.toNat % 4096) = window (n + 64) := by
          apply UInt64.toNat_inj.mp
          rw [UInt64.toNat_add, r.toNat_window_add_offset hn, UInt64.toNat_ofNat',
            toNat_window (by omega), mmioStart]
          omega
        rw [hindex, Vm.physAt, hunmapped] at hmapped
        cases hmapped
      | cons d rs =>
        -- the next request begins inside this one
        have hdisj := List.rel_of_pairwise_cons h.disjoint List.mem_cons_self
        have hd := d.pageCount_pos (hsize d (by simp))
        rw [r.next_window (by omega)] at hdisj
        rw [r.endPage_window hn, d.firstPage_window (by omega), d.endPage_window (by omega),
          r.firstPage_window hn] at hdisj
        omega
    have htail : RemapOk kernelEnd (placedFrom (window (n + r.pagesNeeded.toNat)) rs) vm := by
      rw [placedFrom, r.next_window (by omega)] at h
      exact ⟨fun d v hd => h.mapped d v (List.mem_cons_of_mem _ hd), h.disjoint.of_cons,
        fun d v hd => h.kernel d v (List.mem_cons_of_mem _ hd)⟩
    obtain ⟨hcounts, hsum⟩ := ih (fun d hd => hsize d (List.mem_cons_of_mem r hd)) (by omega)
      (fun k hk => hpast k (by omega)) htail
    constructor
    · intro d hd
      rcases List.mem_cons.mp hd with rfl | hd
      · exact hcount
      · exact hcounts d hd
    · rw [List.map_cons, List.sum_cons]
      omega

theorem takenPages_eq {rs : List MmioRequest} (h : ∀ r ∈ rs, r.pageCount = r.pagesNeeded.toNat) :
    takenPages rs = (rs.map MmioRequest.pageCount).sum := by
  rw [takenPages, List.map_congr_left h]

theorem exists_mem_placedFrom {rs : List MmioRequest} {r : MmioRequest} (hr : r ∈ rs)
    (next : UInt64) : ∃ v, (r, v) ∈ placedFrom next rs := by
  induction rs generalizing next with
  | nil => cases hr
  | cons d rs ih =>
    rcases List.mem_cons.mp hr with rfl | hr
    · exact ⟨_, List.mem_cons_self⟩
    · obtain ⟨v, hv⟩ := ih hr _
      exact ⟨v, List.mem_cons_of_mem _ hv⟩

/-- Every sequence of requests of at least one byte, with page-table frames available: the
callers get what they expect exactly when the requests fit. -/
theorem remapOk_iff_requestsFit {s : Mmio} (hs : MmioReady s) {kernelEnd : UInt64}
    (hend : kernelStart < kernelEnd) {rs : List MmioRequest} (hsize : ∀ r ∈ rs, 1 ≤ r.size.toNat)
    (hframes : completed s.vm (allMapCalls s.nextMmioAddr rs) = allMapCalls s.nextMmioAddr rs) :
    RemapOk kernelEnd (mmioRemapAll s rs).1 (mmioRemapAll s rs).2.vm ↔ RequestsFit rs := by
  have hnext : s.nextMmioAddr = window 0 := hs.next.trans window_zero.symm
  obtain ⟨hplaced, hvm⟩ := mmioRemapAll_eq s rs
  rw [hplaced, hvm]
  rw [hnext] at hframes ⊢
  constructor
  · intro h
    have hpast (k : ℕ) (hge : 0 + takenPages rs ≤ k) (hk : k < 512) :
        (mapAll s.vm (allMapCalls (window 0) rs)).lookup (window k) = none :=
      lookup_past_taken hs (by omega) (by omega) hk
    obtain ⟨hcounts, hsum⟩ := fit_of_remapOk hend hsize (by norm_num) hpast h
    refine ⟨fun r hr => ⟨hcounts r hr, ?_⟩, by omega⟩
    -- the last byte of the request has a physical address
    obtain ⟨v, hv⟩ := exists_mem_placedFrom hr (window 0)
    have hpos := hsize r hr
    have hlast := h.mapped r v hv (r.size.toNat - 1) (by omega)
    obtain ⟨p, hp, hpv⟩ := Option.map_eq_some_iff.mp hlast
    have := physAt_lt hp
    omega
  · rintro ⟨hfit, hsum⟩
    have hneeded (r : MmioRequest) (hr : r ∈ rs) : r.pageCount = r.pagesNeeded.toNat := by
      have := (hfit r hr).1
      rw [r.pagesNeeded_of_le (hsize r hr) (by omega)]
      omega
    have htaken : takenPages rs ≤ 512 := by
      rw [takenPages_eq hneeded]
      exact hsum
    constructor
    · intro r v hv i hi
      obtain ⟨hr, k, -, hle, rfl, hcalls⟩ := mem_placedFrom (by omega) hv
      obtain ⟨hcount, hphys⟩ := hfit r hr
      refine mapped_of_fits (hsize r hr) hcount hphys (by omega) (fun j hj v hv => ?_) hi
      exact lookup_of_call hs htaken hframes (hcalls j hj) hv
    · exact pairwise_placedFrom (by omega) hneeded
    · intro r v hv
      obtain ⟨hr, k, -, hle, rfl, -⟩ := mem_placedFrom (by omega) hv
      have hks : kernelStart.toNat = mmioStart + 4096 * 512 := rfl
      left
      rw [r.endPage_window (by omega), hneeded r hr, hks, mmioStart]
      omega

/-! ## Two requests -/

theorem bootMmio_ready {m : State} (hm : mmInit 0 (some [⟨0x100000, 0x100000, 0⟩]) = some m) :
    MmioReady ⟨bootVm 0x1000 m.pfa, 0xFFFFFFFF80000000⟩ := by
  obtain ⟨hok, -, hno⟩ := bootVm_ok hm
  exact ⟨hok, rfl, fun n _ => bootVm_lookup _ _ _, fun n _ => hno _⟩

theorem bootMmio_frames {m : State} (hm : mmInit 0 (some [⟨0x100000, 0x100000, 0⟩]) = some m)
    (r : MmioRequest) :
    completed (bootVm 0x1000 m.pfa) (allMapCalls 0xFFFFFFFF80000000 [r]) =
      allMapCalls 0xFFFFFFFF80000000 [r] := by
  obtain ⟨hok, -, hno⟩ := bootVm_ok hm
  apply completed_eq hok (allMapCalls_valid _ _) (fun c _ => hno _)
  have hcount := boot_count hm
  have hlen : (allMapCalls 0xFFFFFFFF80000000 [r]).length = r.pagesNeeded.toNat := by
    simp [allMapCalls, MmioRequest.mapCalls]
  have hle := r.pagesNeeded_le
  rw [hlen]
  change _ ≤ m.pfa.lowFreeCount.toNat
  omega

/-- The 64 KiB of registers an xHCI controller asks for. -/
theorem remapOk_iff_requestsFit_xhci :
    ∃ m, mmInit 0 (some [⟨0x100000, 0x100000, 0⟩]) = some m ∧
      RemapOk 0xffffffff80400000
        (mmioRemapAll ⟨bootVm 0x1000 m.pfa, 0xFFFFFFFF80000000⟩ [⟨0xFEBF0010, 0x10000⟩]).1
        (mmioRemapAll ⟨bootVm 0x1000 m.pfa, 0xFFFFFFFF80000000⟩ [⟨0xFEBF0010, 0x10000⟩]).2.vm := by
  obtain ⟨m, hm⟩ := mmInit_isSome 0
    (show bitmapPlacementAddr [⟨0x100000, 0x100000, 0⟩] ≠ 0 by decide)
  refine ⟨m, hm, (remapOk_iff_requestsFit (bootMmio_ready hm) (by decide) (by simp)
    (bootMmio_frames hm _)).mpr ⟨?_, by decide⟩⟩
  intro r hr
  rw [List.mem_singleton.mp hr]
  exact ⟨by decide, by decide⟩

/-- A request for 65 pages gets 64, and its last page is not mapped. -/
theorem remap_capped :
    ¬ ∀ (s : Mmio) (kernelEnd : UInt64) (rs : List MmioRequest), MmioReady s →
      kernelStart < kernelEnd → (∀ r ∈ rs, 1 ≤ r.size.toNat) →
        completed s.vm (allMapCalls s.nextMmioAddr rs) = allMapCalls s.nextMmioAddr rs →
          RemapOk kernelEnd (mmioRemapAll s rs).1 (mmioRemapAll s rs).2.vm := by
  intro hall
  obtain ⟨m, hm⟩ := mmInit_isSome 0
    (show bitmapPlacementAddr [⟨0x100000, 0x100000, 0⟩] ≠ 0 by decide)
  have hready := bootMmio_ready hm
  have h := hall ⟨bootVm 0x1000 m.pfa, 0xFFFFFFFF80000000⟩ 0xffffffff80400000
    [⟨0xFE000000, 0x41000⟩] hready (by decide) (by simp) (bootMmio_frames hm _)
  obtain ⟨hplaced, hvm⟩ :=
    mmioRemapAll_eq ⟨bootVm 0x1000 m.pfa, 0xFFFFFFFF80000000⟩ [⟨0xFE000000, 0x41000⟩]
  rw [hplaced, hvm] at h
  dsimp only at h
  rw [← window_zero] at h
  have hpast (k : ℕ) (hge : 0 + takenPages [⟨0xFE000000, 0x41000⟩] ≤ k) (hk : k < 512) :
      (mapAll (bootVm 0x1000 m.pfa) (allMapCalls (window 0) [⟨0xFE000000, 0x41000⟩])).lookup
        (window k) = none :=
    lookup_past_taken hready (by omega) (by omega) hk
  have hfit := fit_of_remapOk (by decide) (by simp) (by norm_num) hpast h
  exact absurd (hfit.1 _ List.mem_cons_self) (by decide)

end Rhoudveine.Mm
