import Rhoudveine.Fat32.Chains
import Rhoudveine.Fat32.WriteBack
import Rhoudveine.Lib.FirstFit

/-!
# The last cluster

`fat32_alloc_cluster` searches up to the number of clusters that would have room on the whole
volume, while the clusters start behind the FATs.
-/

namespace Rhoudveine.Fat32
open Mm Search FirstFit

/-! ## The data area -/

/-- The number of clusters that have room between the start of the data area and the end of the
volume. -/
def dataClusters (fs : Fat32Fs) : ℕ :=
  (fs.bs.totalSectors32.toNat - fs.dataStartSector.toNat) / fs.bs.sectorsPerCluster.toNat

/-- The sectors of a cluster are computed without a carry and lie in the data area. -/
structure InDataArea (fs : Fat32Fs) (c : UInt32) : Prop where
  exact : (fat32ClusterToSector fs c).toNat =
    fs.dataStartSector.toNat + (c.toNat - 2) * fs.bs.sectorsPerCluster.toNat
  inside : ∀ k < fs.bs.sectorsPerCluster.toNat,
    fs.dataStartSector.toNat ≤ (fat32ClusterToSector fs c).toNat + k ∧
      (fat32ClusterToSector fs c).toNat + k < fs.bs.totalSectors32.toNat

/-- The first cluster has number 2. -/
theorem inDataArea_iff {fs : Fat32Fs} (h : Mounted fs) {c : UInt32} (hc : 2 ≤ c) :
    InDataArea fs c ↔ c.toNat < dataClusters fs + 2 := by
  have hpos := h.sectors_pos
  have hlow : 2 ≤ c.toNat := UInt32.le_iff_toNat_le.mp hc
  have htotal := fs.bs.totalSectors32.toNat_lt
  have hnext : (c.toNat - 2 + 1) * fs.bs.sectorsPerCluster.toNat =
      (c.toNat - 2) * fs.bs.sectorsPerCluster.toNat + fs.bs.sectorsPerCluster.toNat := by
    rw [Nat.add_mul, Nat.one_mul]
  -- the cluster is one of the first when it ends in the data area
  have hfits : c.toNat < dataClusters fs + 2 ↔
      (c.toNat - 2 + 1) * fs.bs.sectorsPerCluster.toNat ≤
        fs.bs.totalSectors32.toNat - fs.dataStartSector.toNat := by
    rw [← Nat.le_div_iff_mul_le hpos, dataClusters]
    omega
  rw [hfits, hnext]
  constructor
  · intro hin
    have hlast := (hin.inside (fs.bs.sectorsPerCluster.toNat - 1) (by omega)).2
    rw [hin.exact] at hlast
    omega
  · intro hle
    have hexact : (fat32ClusterToSector fs c).toNat =
        fs.dataStartSector.toNat + (c.toNat - 2) * fs.bs.sectorsPerCluster.toNat := by
      have htwo : (c - 2).toNat = c.toNat - 2 := UInt32.toNat_sub_of_le _ _ hc
      rw [fat32ClusterToSector, UInt32.toNat_add, UInt32.toNat_mul, htwo, UInt8.toNat_toUInt32,
        Nat.mod_eq_of_lt (show _ < 2 ^ 32 by omega), Nat.mod_eq_of_lt (by omega)]
    refine ⟨hexact, fun k hk => ?_⟩
    rw [hexact]
    omega

/-! ## Free clusters -/

variable {dev : Device} {st st' : Volume} {r : UInt32}

/-- The clusters among which `fat32_alloc_cluster` searches and that are free in the cache. -/
def freeClusters (st : Volume) : Set ℕ :=
  {e | 2 ≤ e ∧ e < st.fs.bs.totalClusters.toNat ∧ st.fatCache e &&& 0x0FFFFFFF = 0}

/-- A call of `fat32_alloc_cluster` and what it returns. -/
def allocStep (dev : Device) (st : Volume) (r : UInt32) (st' : Volume) : Prop :=
  fat32AllocCluster dev st = (r, st')

theorem firstFree_isLeast {e : ℕ} (h : firstFree st = some e) : IsLeast (freeClusters st) e := by
  obtain ⟨hlow, hhigh, hfree, hbelow⟩ := firstFree_eq_some h
  refine ⟨⟨hlow, hhigh, hfree⟩, fun j hj => ?_⟩
  by_contra hlt
  exact hbelow j hj.1 (by omega) hj.2.2

theorem firstFree_eq_none (h : firstFree st = none) : freeClusters st = ∅ := by
  apply Set.eq_empty_of_forall_notMem
  rintro j ⟨hlow, hhigh, hfree⟩
  have hnone := firstSome_eq_none.mp h j hlow (by omega)
  rw [freeEntry, if_pos hfree] at hnone
  cases hnone

/-- A marked cluster is the only one that is no longer free. -/
theorem freeClusters_mark (hfs : st'.fs = st.fs)
    (hcache : st'.fatCache = setWord st.fatCache r.toNat 0x0FFFFFFF) :
    freeClusters st' = freeClusters st \ {r.toNat} := by
  have hmark : (((st.fatCache r.toNat &&& 0xF0000000) ||| (0x0FFFFFFF &&& 0x0FFFFFFF)) &&&
      0x0FFFFFFF : UInt32) = 0x0FFFFFFF := by
    rw [mask_word]
    rfl
  ext e
  unfold freeClusters
  rw [hfs, hcache]
  by_cases he : e = r.toNat
  · simp only [he, setWord, Function.update_self, Set.mem_ofPred_eq, Set.mem_sdiff,
      Set.mem_singleton_iff, not_true, and_false, iff_false, hmark]
    exact fun h => absurd h.2.2 (by decide)
  · simp only [setWord, Function.update_of_ne he, Set.mem_ofPred_eq, Set.mem_sdiff,
      Set.mem_singleton_iff, he, not_false_eq_true, and_true]

theorem allocStep_onlyFree {fs : Fat32Fs} (hvalid : fs.fatCacheValid = true) :
    OnlyFree (allocStep dev) freeClusters UInt32.toNat (· ≠ 0) fun s => s.fs = fs := by
  intro s r t hs h
  subst hs
  unfold allocStep at h
  rcases @fat32AllocCluster_cases dev s hvalid with
    ⟨-, accesses, heq⟩ | ⟨c, accesses, hfree, -, heq⟩
  · obtain ⟨rfl, rfl⟩ := Prod.mk.inj (heq.symm.trans h)
    exact ⟨rfl, subset_rfl, fun hne => absurd rfl hne⟩
  · obtain ⟨hfs, hcache⟩ := @markCluster_fatCache dev s hvalid accesses c
    obtain ⟨hr, rfl⟩ := Prod.mk.inj (heq.symm.trans h)
    refine ⟨hfs, ?_, fun hne => ?_⟩
    · rw [freeClusters_mark hfs hcache]
      exact Set.sdiff_subset
    · have hc : r = c := by
        rw [← hr]
        exact ite_eq_left_iff.mpr fun hfail => absurd (hr.symm.trans (if_neg hfail)) hne
      rw [hc]
      exact (firstFree_isLeast hfree).1

/-- A call on a device that never fails takes the least free cluster. -/
theorem allocStep_progress {fs : Fat32Fs} (hvalid : fs.fatCacheValid = true) :
    Progress (allocStep goodDevice) freeClusters UInt32.toNat fun s => s.fs = fs := by
  intro s hs hsome
  subst hs
  rcases @fat32AllocCluster_cases goodDevice s hvalid with ⟨hnone, -⟩ | ⟨c, accesses, hfree, -, heq⟩
  · rw [firstFree_eq_none hnone] at hsome
    exact absurd hsome Set.not_nonempty_empty
  · obtain ⟨hfs, hcache⟩ := @markCluster_fatCache goodDevice s hvalid accesses c
    have hok : (markCluster goodDevice (s.withAccesses accesses) c).1 = true := rfl
    rw [if_pos hok] at heq
    exact ⟨c, _, heq, hfs, firstFree_isLeast hfree, freeClusters_mark hfs hcache⟩

/-! ## Runs of allocations -/

/-- Whichever writes succeed, every cluster that a run of allocations returns has its sectors in
the data area. -/
def AllocatesInside (st : Volume) : Prop :=
  ∀ dev results st', Run (allocStep dev) st results st' →
    ∀ r ∈ results, r ≠ 0 → InDataArea st.fs r

theorem allocatesInside_iff_free (hmounted : Mounted st.fs) :
    AllocatesInside st ↔ ∀ e ∈ freeClusters st, e < dataClusters st.fs + 2 := by
  constructor
  · intro hinside e he
    obtain ⟨results, st', hrun, r, hr, rfl⟩ :=
      (allocStep_progress hmounted.cached).exists_run rfl he
    have hlow : 2 ≤ r := UInt32.le_iff_toNat_le.mpr he.1
    have hne : r ≠ 0 := by
      rintro rfl
      exact absurd hlow (by decide)
    exact (inDataArea_iff hmounted hlow).mp (hinside goodDevice results st' hrun r hr hne)
  · intro hfree dev results st' hrun r hr hne
    have htaken := (allocStep_onlyFree hmounted.cached).mem_of_run hrun rfl r hr hne
    exact (inDataArea_iff hmounted (UInt32.le_iff_toNat_le.mpr htaken.1)).mpr (hfree _ htaken)

/-! ## The end of the volume -/

/-- The number of entries that `fat32_mount` reads. -/
def BootSector.cachedEntries (bs : BootSector) : ℕ := bs.sectorsToRead.toNat * 128

/-- The FAT marks as free every entry past that of the last cluster in the data area. -/
def FreeBehind (st : Volume) : Prop :=
  ∀ e, dataClusters st.fs + 2 ≤ e → e < st.fs.bs.cachedEntries →
    st.fatCache e &&& 0x0FFFFFFF = 0

/-- The last cluster has its entry behind the cached ones, and the words there that the search
takes for entries of further clusters are not zero. -/
def HiddenBehind (st : Volume) : Prop :=
  st.fs.bs.cachedEntries ≤ dataClusters st.fs + 2 ∧
    ∀ e, dataClusters st.fs + 2 ≤ e → e < st.fs.bs.totalClusters.toNat →
      st.fatCache e &&& 0x0FFFFFFF ≠ 0

/-- Allocations stay in the data area exactly when the search ends there. -/
theorem allocatesInside_iff (hmounted : Mounted st.fs) (hfree : FreeBehind st) :
    AllocatesInside st ↔
      st.fs.bs.totalClusters.toNat ≤ dataClusters st.fs + 2 ∨ HiddenBehind st := by
  rw [allocatesInside_iff_free hmounted]
  constructor
  · intro hinside
    by_cases htotal : st.fs.bs.totalClusters.toNat ≤ dataClusters st.fs + 2
    · exact Or.inl htotal
    · right
      have hused (e : ℕ) (hlow : dataClusters st.fs + 2 ≤ e)
          (hhigh : e < st.fs.bs.totalClusters.toNat) : st.fatCache e &&& 0x0FFFFFFF ≠ 0 := by
        intro hzero
        have hlt := hinside e ⟨by omega, hhigh, hzero⟩
        omega
      refine ⟨?_, hused⟩
      by_contra hcached
      exact hused _ (Nat.le_refl _) (by omega) (hfree _ (Nat.le_refl _) (by omega))
  · rintro (htotal | hhidden) e ⟨-, hhigh, hzero⟩
    · omega
    · by_contra hge
      exact hhidden.2 e (by omega) hhigh hzero

/-- A volume of 64 clusters of which the FAT takes one. -/
theorem allocatesInside_iff_oneFat : AllocatesInside (smallVolume 1).2.2 := by
  have hmounted : Mounted (smallVolume 1).2.2.fs := ⟨by decide +kernel, by decide +kernel⟩
  have hfree : ∀ e < (smallVolume 1).2.2.fs.bs.cachedEntries,
      dataClusters (smallVolume 1).2.2.fs + 2 ≤ e →
        (smallVolume 1).2.2.fatCache e &&& 0x0FFFFFFF = 0 := by
    decide +kernel
  have htotal : (smallVolume 1).2.2.fs.bs.totalClusters.toNat ≤
      dataClusters (smallVolume 1).2.2.fs + 2 := by
    decide +kernel
  exact (allocatesInside_iff hmounted fun e hlow hhigh => hfree e hhigh hlow).mpr (Or.inl htotal)

/-- A volume of 64 sectors with one sector a cluster and two FATs, in which all clusters of the
data area are in use. -/
def fullDisk (a : ℕ) : UInt8 :=
  if 512 ≤ a ∧ a < 1536 ∧ a % 512 < 4 * 63 then if a % 4 = 3 then 0x0F else 0xFF
  else smallDisk 2 a

def fullVolume : ℤ × Option Node × Volume := fat32Mount goodDevice (unmounted fullDisk) none

/-- The search goes on to cluster 63, the sector behind the volume. -/
theorem fullVolume_not_allocatesInside :
    fullVolume.1 = 0 ∧ FreeBehind fullVolume.2.2 ∧
      (fat32AllocCluster goodDevice fullVolume.2.2).1 = 63 ∧
      fat32ClusterToSector fullVolume.2.2.fs 63 = 64 ∧
      fullVolume.2.2.fs.bs.totalSectors32 = 64 ∧ ¬ AllocatesInside fullVolume.2.2 := by
  have hfree : ∀ e < fullVolume.2.2.fs.bs.cachedEntries, dataClusters fullVolume.2.2.fs + 2 ≤ e →
      fullVolume.2.2.fatCache e &&& 0x0FFFFFFF = 0 := by
    decide +kernel
  have hresult : (fat32AllocCluster goodDevice fullVolume.2.2).1 = 63 := by decide +kernel
  refine ⟨by decide +kernel, fun e hlow hhigh => hfree e hhigh hlow, hresult, by decide +kernel,
    by decide +kernel, fun hinside => ?_⟩
  have hrun : Run (allocStep goodDevice) fullVolume.2.2 [63]
      (fat32AllocCluster goodDevice fullVolume.2.2).2 := .cons (Prod.ext hresult rfl) (.nil _)
  have hin := (hinside goodDevice [63] _ hrun 63 List.mem_cons_self (by decide)).inside 0
    (by decide +kernel)
  exact absurd hin (by decide +kernel)

end Rhoudveine.Fat32
