import Rhoudveine.Fs.State
import Rhoudveine.Lib.LittleEndian
import Rhoudveine.Mm.Pfa

/-!
# FAT32 volumes

The boot sector, the cached FAT and the cluster helpers of `fat32_vfs.c`, as built with
`CONFIG_AHCI`.  The disk is a sequence of bytes, 512 to a sector, and the FAT cache is the
memory from its page on, in 32-bit words.  What the AHCI transfers do is a parameter.
-/

namespace Rhoudveine.Fat32
open Mm LittleEndian

/-! ## The device -/

/-- Whether transfer number `n` succeeds, the bytes it leaves if it fails, and what the
frames hold before they are used. -/
structure Device where
  ok : ℕ → Bool
  torn : ℕ → ℕ → UInt8
  leftover : UInt64 → ℕ → UInt8

/-! ## The volume -/

/-- The fields of `struct fat32_boot_sector` that the driver uses. -/
structure BootSector where
  bytesPerSector : UInt16
  sectorsPerCluster : UInt8
  reservedSectors : UInt16
  numFats : UInt8
  totalSectors32 : UInt32
  fatSize32 : UInt32
  rootCluster : UInt32
  volumeId : UInt32
  deriving DecidableEq, Repr

namespace BootSector

/-- `cluster_size`, in bytes. -/
def clusterSize (bs : BootSector) : UInt32 :=
  bs.bytesPerSector.toUInt32 * bs.sectorsPerCluster.toUInt32

/-- `entries_per_cluster`: a directory record has 32 bytes. -/
def entriesPerCluster (bs : BootSector) : UInt32 := bs.clusterSize / 32

/-- `total_clusters`. -/
def totalClusters (bs : BootSector) : UInt32 := bs.totalSectors32 / bs.sectorsPerCluster.toUInt32

end BootSector

/-- `struct fat32_fs`; `fatCachePage` is the address of the page at `fat_cache`. -/
structure Fat32Fs where
  bs : BootSector
  fatStartSector : UInt32
  dataStartSector : UInt32
  rootDirCluster : UInt32
  fatCachePage : UInt64
  fatCacheValid : Bool
  deriving DecidableEq, Repr

/-- An access to `len` bytes from byte `start` of the page at an address. -/
structure Access where
  page : UInt64
  start : ℕ
  len : ℕ
  deriving DecidableEq, Repr

/-- A mounted volume: the cached FAT, the disk, the number of transfers so far, the frame
allocator, and the accesses to cluster buffers and to the FAT cache so far. -/
structure Volume where
  fs : Fat32Fs
  fatCache : ℕ → UInt32
  disk : ℕ → UInt8
  transfers : ℕ
  pfa : Pfa
  accesses : List Access

namespace Volume

def touch (st : Volume) (page : UInt64) (start len : ℕ) : Volume :=
  { st with accesses := st.accesses ++ [⟨page, start, len⟩] }

/-- `pfa_alloc`. -/
def alloc (st : Volume) : UInt64 × Volume :=
  ((pfaAlloc st.pfa).1, { st with pfa := (pfaAlloc st.pfa).2 })

/-- `pfa_free`. -/
def free (st : Volume) (page : UInt64) : Volume := { st with pfa := pfaFree st.pfa page }

end Volume

variable (dev : Device)

/-- `ahci_read_sectors` into the buffer `buf` in a page: `true` for its return value 0, the
buffer and the state after it. -/
def ahciReadSectors (st : Volume) (lba count : UInt32) (page : UInt64) (buf : ℕ → UInt8) :
    Bool × (ℕ → UInt8) × Volume :=
  let len := count.toNat * 512
  let data := if dev.ok st.transfers then fun i => st.disk (lba.toNat * 512 + i)
    else dev.torn st.transfers
  (dev.ok st.transfers, fun i => if i < len then data i else buf i,
    { st.touch page 0 len with transfers := st.transfers + 1 })

variable {dev} in
/-- A successful read: the buffer holds the sectors. -/
theorem ahciReadSectors_ok {st st' : Volume} {lba count : UInt32} {page : UInt64}
    {old buf : ℕ → UInt8} (h : ahciReadSectors dev st lba count page old = (true, buf, st')) :
    (∀ i < count.toNat * 512, buf i = st.disk (lba.toNat * 512 + i)) ∧
      st' = { st.touch page 0 (count.toNat * 512) with transfers := st.transfers + 1 } := by
  simp only [ahciReadSectors, Prod.mk.injEq] at h
  obtain ⟨hok, rfl, rfl⟩ := h
  refine ⟨fun i hi => ?_, rfl⟩
  simp only [if_pos hi, if_pos hok]

/-- `ahci_write_sectors` from the buffer `buf` in a page. -/
def ahciWriteSectors (st : Volume) (lba count : UInt32) (page : UInt64) (buf : ℕ → UInt8) :
    Bool × Volume :=
  let first := lba.toNat * 512
  let len := count.toNat * 512
  let data := if dev.ok st.transfers then buf else dev.torn st.transfers
  (dev.ok st.transfers,
    { st.touch page 0 len with
      disk := fun a => if first ≤ a ∧ a < first + len then data (a - first) else st.disk a
      transfers := st.transfers + 1 })

/-! ## The FAT -/

/-- The first value that marks the end of a chain. -/
def endOfChain : UInt32 := 0x0FFFFFF8

def fat32GetFatEntry (st : Volume) (cluster : UInt32) : UInt32 × Volume :=
  if ¬ st.fs.fatCacheValid then (0x0FFFFFFF, st)
  else
    (st.fatCache cluster.toNat &&& 0x0FFFFFFF,
      st.touch st.fs.fatCachePage (cluster.toNat * 4) 4)

def fat32SetFatEntry (st : Volume) (cluster value : UInt32) : Volume :=
  if ¬ st.fs.fatCacheValid then st
  else
    let word := (st.fatCache cluster.toNat &&& 0xF0000000) ||| (value &&& 0x0FFFFFFF)
    { st.touch st.fs.fatCachePage (cluster.toNat * 4) 4 with
      fatCache := Function.update st.fatCache cluster.toNat word }

def fat32ClusterToSector (fs : Fat32Fs) (cluster : UInt32) : UInt32 :=
  fs.dataStartSector + (cluster - 2) * fs.bs.sectorsPerCluster.toUInt32

/-- The bytes from `fat_cache` on. -/
def cacheBytes (st : Volume) (i : ℕ) : UInt8 := leByte (st.fatCache (i / 4)).toNat (i % 4)

/-- Write the FAT back to the disk. -/
def writeFat (st : Volume) : Bool × Volume :=
  ahciWriteSectors dev st st.fs.fatStartSector st.fs.bs.fatSize32 st.fs.fatCachePage (cacheBytes st)

/-- The search of `fat32_alloc_cluster` from cluster `i` on. -/
def allocLoop : (rounds : ℕ) → (i : UInt32) → Volume → UInt32 × Volume
  | 0, _, st => (0, st)
  | rounds + 1, i, st =>
    match fat32GetFatEntry st i with
    | (entry, st) =>
      if entry = 0 then
        match writeFat dev (fat32SetFatEntry st i 0x0FFFFFFF) with
        | (ok, st) => if ok then (i, st) else (0, st)
      else allocLoop rounds (i + 1) st

def fat32AllocCluster (st : Volume) : UInt32 × Volume :=
  if ¬ st.fs.fatCacheValid then (0, st)
  else allocLoop dev (st.fs.bs.totalClusters.toNat - 2) 2 st

def fat32ExtendChain (st : Volume) (lastCluster : UInt32) : UInt32 × Volume :=
  match fat32AllocCluster dev st with
  | (newCluster, st) =>
    if newCluster = 0 then (0, st)
    else (newCluster, (writeFat dev (fat32SetFatEntry st lastCluster newCluster)).2)

/-! ## Clusters -/

def fat32ReadCluster (st : Volume) (cluster : UInt32) (page : UInt64) (buf : ℕ → UInt8) :
    Bool × (ℕ → UInt8) × Volume :=
  ahciReadSectors dev st (fat32ClusterToSector st.fs cluster)
    st.fs.bs.sectorsPerCluster.toUInt32 page buf

def fat32WriteCluster (st : Volume) (cluster : UInt32) (page : UInt64) (buf : ℕ → UInt8) :
    Bool × Volume :=
  ahciWriteSectors dev st (fat32ClusterToSector st.fs cluster)
    st.fs.bs.sectorsPerCluster.toUInt32 page buf

end Rhoudveine.Fat32
