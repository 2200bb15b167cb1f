import Rhoudveine.Fat32.Mount

/-!
# Cluster chains

The chains of the cached FAT, and what the cluster helpers do on a mounted volume whose
transfers succeed.
-/

namespace Rhoudveine.Fat32
open Mm

/-! ## Geometry -/

/-- What `fat32_mount` has checked and set up. -/
structure Mounted (fs : Fat32Fs) : Prop where
  valid : fs.bs.valid = true
  cached : fs.fatCacheValid = true

theorem MountedFrom.mounted {st st' : Volume} {root : Node} (h : MountedFrom st st' root) :
    Mounted st'.fs := by
  constructor
  · rw [h.fs]
    exact h.valid
  · rw [h.fs]
    rfl

theorem BootSector.valid_iff {bs : BootSector} : bs.valid = true ↔
    bs.bytesPerSector = 512 ∧ bs.sectorsPerCluster ≠ 0 ∧ bs.sectorsPerCluster ≤ 128 := by
  simp [BootSector.valid, and_assoc]

namespace Mounted

variable {fs : Fat32Fs}

theorem sectors_pos (h : Mounted fs) : 0 < fs.bs.sectorsPerCluster.toNat := by
  obtain ⟨-, hne, -⟩ := BootSector.valid_iff.mp h.valid
  exact Nat.pos_of_ne_zero fun hzero => hne (UInt8.toNat_inj.mp hzero)

theorem sectors_le (h : Mounted fs) : fs.bs.sectorsPerCluster.toNat ≤ 128 :=
  UInt8.le_iff_toNat_le.mp (BootSector.valid_iff.mp h.valid).2.2

theorem toNat_clusterSize (h : Mounted fs) :
    fs.bs.clusterSize.toNat = 512 * fs.bs.sectorsPerCluster.toNat := by
  have hle := h.sectors_le
  have hbytes : fs.bs.bytesPerSector.toUInt32.toNat = 512 := by
    rw [(BootSector.valid_iff.mp h.valid).1]
    rfl
  rw [BootSector.clusterSize, UInt32.toNat_mul, hbytes, UInt8.toNat_toUInt32]
  exact Nat.mod_eq_of_lt (by omega)

theorem toNat_entriesPerCluster (h : Mounted fs) :
    fs.bs.entriesPerCluster.toNat = 16 * fs.bs.sectorsPerCluster.toNat := by
  have h32 : (32 : UInt32).toNat = 32 := rfl
  rw [BootSector.entriesPerCluster, UInt32.toNat_div, h.toNat_clusterSize, h32]
  omega

end Mounted

/-! ## Chains -/

/-- The FAT entry of a cluster. -/
def fatLink (st : Volume) (c : UInt32) : UInt32 := st.fatCache c.toNat &&& 0x0FFFFFFF

/-- The clusters from `c` on, up to an end mark. -/
def IsChain (st : Volume) : UInt32 → List UInt32 → Prop
  | c, [] => endOfChain ≤ c
  | c, x :: xs => c < endOfChain ∧ x = c ∧ IsChain st (fatLink st c) xs

/-- The first byte of a cluster on the disk. -/
def clusterStart (fs : Fat32Fs) (c : UInt32) : ℕ := (fat32ClusterToSector fs c).toNat * 512

/-- The volume is the same; memory and the number of transfers may differ. -/
structure SameVolume (st st' : Volume) : Prop where
  fs : st'.fs = st.fs
  fatCache : st'.fatCache = st.fatCache
  disk : st'.disk = st.disk

namespace SameVolume

variable {st st' st'' : Volume}

theorem refl (st : Volume) : SameVolume st st := ⟨rfl, rfl, rfl⟩

theorem trans (h : SameVolume st st') (h' : SameVolume st' st'') : SameVolume st st'' :=
  ⟨h'.fs.trans h.fs, h'.fatCache.trans h.fatCache, h'.disk.trans h.disk⟩

theorem fatLink (h : SameVolume st st') (c : UInt32) : fatLink st' c = fatLink st c := by
  rw [Fat32.fatLink, Fat32.fatLink, h.fatCache]

theorem isChain (h : SameVolume st st') {c : UInt32} {chain : List UInt32}
    (hchain : IsChain st c chain) : IsChain st' c chain := by
  induction chain generalizing c with
  | nil => exact hchain
  | cons x xs ih =>
    obtain ⟨hlt, hx, hrest⟩ := hchain
    refine ⟨hlt, hx, ?_⟩
    rw [h.fatLink]
    exact ih hrest

end SameVolume

/-! ## Successful transfers -/

variable {dev : Device} {st : Volume}

theorem fat32GetFatEntry_same (st : Volume) (c : UInt32) :
    SameVolume st (fat32GetFatEntry st c).2 := by
  unfold fat32GetFatEntry
  split
  · exact SameVolume.refl st
  · exact ⟨rfl, rfl, rfl⟩

@[simp] theorem fat32GetFatEntry_transfers (st : Volume) (c : UInt32) :
    (fat32GetFatEntry st c).2.transfers = st.transfers := by
  unfold fat32GetFatEntry
  split <;> rfl

/-- Looking up a FAT entry. -/
theorem fat32GetFatEntry_cached (hcached : st.fs.fatCacheValid = true) (c : UInt32) :
    (fat32GetFatEntry st c).1 = fatLink st c ∧ SameVolume st (fat32GetFatEntry st c).2 := by
  unfold fat32GetFatEntry
  rw [if_neg (not_not.mpr hcached)]
  exact ⟨rfl, rfl, rfl, rfl⟩

/-- Reading a cluster. -/
theorem fat32ReadCluster_spec (st : Volume) (c : UInt32) (page : UInt64) (old : ℕ → UInt8) :
    ∃ buf st', fat32ReadCluster dev st c page old = (dev.ok st.transfers, buf, st') ∧
      SameVolume st st' ∧ st'.pfa = st.pfa ∧ st'.transfers = st.transfers + 1 ∧
      (dev.ok st.transfers = true → ∀ i < 512 * st.fs.bs.sectorsPerCluster.toNat,
        buf i = st.disk (clusterStart st.fs c + i)) := by
  unfold fat32ReadCluster ahciReadSectors
  refine ⟨_, _, rfl, ⟨rfl, rfl, rfl⟩, rfl, rfl, ?_⟩
  intro hok i hi
  rw [UInt8.toNat_toUInt32, if_pos (by omega), if_pos hok]
  rfl

theorem fat32ReadCluster_ok (hok : ∀ n, dev.ok n = true) (c : UInt32) (page : UInt64)
    (old : ℕ → UInt8) :
    ∃ buf st', fat32ReadCluster dev st c page old = (true, buf, st') ∧ SameVolume st st' ∧
      st'.pfa = st.pfa ∧
      ∀ i < 512 * st.fs.bs.sectorsPerCluster.toNat, buf i = st.disk (clusterStart st.fs c + i) := by
  obtain ⟨buf, st', hread, hsame, hpfa, -, hbuf⟩ := @fat32ReadCluster_spec dev st c page old
  rw [hok] at hread
  exact ⟨buf, st', hread, hsame, hpfa, hbuf (hok _)⟩

/-- Writing a cluster. -/
theorem fat32WriteCluster_ok (hok : ∀ n, dev.ok n = true) (c : UInt32) (page : UInt64)
    (buf : ℕ → UInt8) :
    ∃ st', fat32WriteCluster dev st c page buf = (true, st') ∧ st'.fs = st.fs ∧
      st'.fatCache = st.fatCache ∧ ∀ a, st'.disk a =
        if clusterStart st.fs c ≤ a ∧
            a < clusterStart st.fs c + 512 * st.fs.bs.sectorsPerCluster.toNat then
          buf (a - clusterStart st.fs c)
        else st.disk a := by
  have hwrite : fat32WriteCluster dev st c page buf =
      (true, (fat32WriteCluster dev st c page buf).2) :=
    Prod.ext (hok st.transfers) rfl
  refine ⟨_, hwrite, rfl, rfl, fun a => ?_⟩
  have hlen : st.fs.bs.sectorsPerCluster.toUInt32.toNat * 512 =
      512 * st.fs.bs.sectorsPerCluster.toNat := by
    rw [UInt8.toNat_toUInt32, Nat.mul_comm]
  have hdisk : (fat32WriteCluster dev st c page buf).2.disk a =
      if clusterStart st.fs c ≤ a ∧
          a < clusterStart st.fs c + st.fs.bs.sectorsPerCluster.toUInt32.toNat * 512 then
        (if dev.ok st.transfers then buf else dev.torn st.transfers) (a - clusterStart st.fs c)
      else st.disk a := rfl
  rw [hdisk, hlen, if_pos (hok st.transfers)]

end Rhoudveine.Fat32
