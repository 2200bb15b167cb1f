import Rhoudveine.Fat32.Directory

/-!
# Mounting a FAT32 volume

`fat32_mount`: what it reads from the boot sector, what it checks, and what it caches.
-/

namespace Rhoudveine.Fat32
open Fs Mm LittleEndian

/-! ## The boot sector -/

def BootSector.ofBytes (b : ℕ → UInt8) : BootSector where
  bytesPerSector := UInt16.ofNat (le b 11 2)
  sectorsPerCluster := b 13
  reservedSectors := UInt16.ofNat (le b 14 2)
  numFats := b 16
  totalSectors32 := UInt32.ofNat (le b 32 4)
  fatSize32 := UInt32.ofNat (le b 36 4)
  rootCluster := UInt32.ofNat (le b 44 4)
  volumeId := UInt32.ofNat (le b 67 4)

def hexVal (c : UInt8) : UInt32 :=
  if 0x30 ≤ c ∧ c ≤ 0x39 then (c - 0x30).toUInt32
  else if 0x41 ≤ c ∧ c ≤ 0x46 then (c - 0x41 + 10).toUInt32
  else if 0x61 ≤ c ∧ c ≤ 0x66 then (c - 0x61 + 10).toUInt32
  else 0

def parseVolumeId (s : Str) : UInt32 :=
  s.foldl (fun (val : UInt32) (c : UInt8) => if c = 0x2D then val else val <<< 4 ||| hexVal c) 0

/-- The check of a device name `UUID=…`; any other name passes. -/
def deviceMatches (device : Option Str) (bs : BootSector) : Bool :=
  match device with
  | none => true
  | some device =>
    if device.take 5 = str "UUID=" then bs.volumeId = parseVolumeId (device.drop 5) else true

/-- The validation of `fat32_mount`. -/
def BootSector.valid (bs : BootSector) : Bool :=
  bs.bytesPerSector = 512 && bs.sectorsPerCluster ≠ 0 && bs.sectorsPerCluster ≤ 128

/-- `fat_size_bytes`, in 32-bit arithmetic. -/
def BootSector.fatSizeBytes (bs : BootSector) : UInt32 := bs.fatSize32 * 512

/-- `sectors_to_read`. -/
def BootSector.sectorsToRead (bs : BootSector) : UInt32 :=
  if bs.fatSizeBytes > 4096 then 8 else bs.fatSize32

/-- The offsets that `fat32_mount` computes. -/
def Fat32Fs.ofBootSector (bs : BootSector) (fatCachePage : UInt64) : Fat32Fs where
  bs := bs
  fatStartSector := bs.reservedSectors.toUInt32
  dataStartSector := bs.reservedSectors.toUInt32 + bs.numFats.toUInt32 * bs.fatSize32
  rootDirCluster := bs.rootCluster
  fatCachePage := fatCachePage
  fatCacheValid := true

/-! ## Mounting -/

/-- The words of a buffer. -/
def bufferWords (buf : ℕ → UInt8) (i : ℕ) : UInt32 := UInt32.ofNat (le buf (4 * i) 4)

variable (dev : Device)

/-- The end of `fat32_mount`: the root node. -/
def mountRoot (st : Volume) (fsPage : UInt64) : ℤ × Option Node × Volume :=
  match st.alloc with
  | (page, st) =>
    if page = 0 then (-1, none, (st.free st.fs.fatCachePage).free fsPage)
    else
      match st.alloc with
      | (dataPage, st) =>
        if dataPage = 0 then (-1, none, ((st.free page).free st.fs.fatCachePage).free fsPage)
        else
          (0, some
            { page := page
              name := [slash]
              size := 0
              flags := vfsDirectory
              dataPage := dataPage
              data := some ⟨st.fs.rootDirCluster, 0⟩ }, st)

/-- The part of `fat32_mount` after the boot sector is read. -/
def mountVolume (st : Volume) (device : Option Str) (fsPage : UInt64) (bs : BootSector) :
    ℤ × Option Node × Volume :=
  if ¬ deviceMatches device bs then (-1, none, st.free fsPage)
  else if ¬ bs.valid then (-1, none, st.free fsPage)
  else
    match st.alloc with
    | (cachePage, st) =>
      if cachePage = 0 then (-1, none, st.free fsPage)
      else
        let fs := Fat32Fs.ofBootSector bs cachePage
        match ahciReadSectors dev st fs.fatStartSector bs.sectorsToRead cachePage
          (dev.leftover cachePage) with
        | (false, _, st) => (-1, none, (st.free cachePage).free fsPage)
        | (true, buf, st) =>
          mountRoot { st with fs := fs, fatCache := bufferWords buf } fsPage

/-- The return value of `fat32_mount`, the root node it puts into the mount point and the state
after it.  What `st` has for the file system and the FAT cache is replaced. -/
def fat32Mount (st : Volume) (device : Option Str) : ℤ × Option Node × Volume :=
  match st.alloc with
  | (fsPage, st) =>
    if fsPage = 0 then (-1, none, st)
    else
      match st.alloc with
      | (page, st) =>
        if page = 0 then (-1, none, st.free fsPage)
        else
          match ahciReadSectors dev st 0 1 page (dev.leftover page) with
          | (false, _, st) => (-1, none, (st.free page).free fsPage)
          | (true, buf, st) =>
            mountVolume dev (st.free page) device fsPage (BootSector.ofBytes buf)

/-! ## What a mounted volume is -/

/-- What `fat32_mount` leaves when it returns 0. -/
structure MountedFrom (st st' : Volume) (root : Node) : Prop where
  valid : (BootSector.ofBytes st.disk).valid = true
  fs : st'.fs = Fat32Fs.ofBootSector (BootSector.ofBytes st.disk) st'.fs.fatCachePage
  page : st'.fs.fatCachePage ≠ 0
  disk : st'.disk = st.disk
  cached : ∀ e < (BootSector.ofBytes st.disk).sectorsToRead.toNat * 128,
    st'.fatCache e = UInt32.ofNat (le st.disk (st'.fs.fatStartSector.toNat * 512 + 4 * e) 4)
  root : root.data = some ⟨st'.fs.rootDirCluster, 0⟩ ∧ root.flags = vfsDirectory

/-- The fields used lie in the first sector. -/
theorem BootSector.ofBytes_congr {b b' : ℕ → UInt8} (h : ∀ i < 512, b i = b' i) :
    BootSector.ofBytes b = BootSector.ofBytes b' := by
  have hle (i n : ℕ) (hin : i + n ≤ 512) : le b i n = le b' i n :=
    le_congr fun k hk => h (i + k) (by omega)
  simp only [BootSector.ofBytes, hle 11 2 (by norm_num), hle 14 2 (by norm_num),
    hle 32 4 (by norm_num), hle 36 4 (by norm_num), hle 44 4 (by norm_num),
    hle 67 4 (by norm_num), h 13 (by norm_num), h 16 (by norm_num)]

theorem mountRoot_ok {st st' : Volume} {fsPage : UInt64} {root : Option Node}
    (h : mountRoot st fsPage = (0, root, st')) :
    ∃ node, root = some node ∧ node.data = some ⟨st.fs.rootDirCluster, 0⟩ ∧
      node.flags = vfsDirectory ∧ st'.fs = st.fs ∧ st'.fatCache = st.fatCache ∧
      st'.disk = st.disk := by
  simp only [mountRoot] at h
  split at h
  · cases h
  · split at h
    · cases h
    · cases h
      exact ⟨_, rfl, rfl, rfl, rfl, rfl, rfl⟩

variable {dev}

/-- The word at index `e` of a buffer that was just read. -/
theorem bufferWords_read {st st' : Volume} {lba count : UInt32} {page : UInt64}
    {old buf : ℕ → UInt8} (h : ahciReadSectors dev st lba count page old = (true, buf, st')) {e : ℕ}
    (he : e < count.toNat * 128) :
    bufferWords buf e = UInt32.ofNat (le st.disk (lba.toNat * 512 + 4 * e) 4) := by
  obtain ⟨hbuf, -⟩ := ahciReadSectors_ok h
  apply congrArg UInt32.ofNat
  apply le_congr
  intro k hk
  rw [hbuf _ (by omega), Nat.add_assoc]

theorem mountVolume_ok {st st' : Volume} {device : Option Str} {fsPage : UInt64}
    {bs : BootSector} {root : Option Node}
    (h : mountVolume dev st device fsPage bs = (0, root, st')) :
    ∃ node page, root = some node ∧ bs.valid = true ∧ page ≠ 0 ∧
      st'.fs = Fat32Fs.ofBootSector bs page ∧ st'.disk = st.disk ∧
      (∀ e < bs.sectorsToRead.toNat * 128, st'.fatCache e =
        UInt32.ofNat (le st.disk (bs.reservedSectors.toUInt32.toNat * 512 + 4 * e) 4)) ∧
      node.data = some ⟨bs.rootCluster, 0⟩ ∧ node.flags = vfsDirectory := by
  unfold mountVolume at h
  split at h
  · cases h
  · split at h
    · cases h
    · rename_i hvalid
      simp only at h
      split at h
      · cases h
      · rename_i hpage
        split at h
        · cases h
        · rename_i hread
          obtain ⟨node, hroot, hdata, hflags, hfs, hcache, hdisk⟩ := mountRoot_ok h
          refine ⟨node, _, hroot, not_not.mp hvalid, hpage, hfs, ?_, ?_, hdata, hflags⟩
          · rw [hdisk]
            obtain ⟨-, rfl⟩ := ahciReadSectors_ok hread
            rfl
          · intro e he
            rw [hcache]
            exact bufferWords_read hread he

theorem fat32Mount_ok {st st' : Volume} {device : Option Str} {root : Option Node}
    (h : fat32Mount dev st device = (0, root, st')) :
    ∃ node, root = some node ∧ MountedFrom st st' node := by
  simp only [fat32Mount] at h
  split at h
  · cases h
  · split at h
    · cases h
    · split at h
      · cases h
      · rename_i buf t hread
        obtain ⟨node, page, hroot, hvalid, hpage, hfs, hdisk, hcached, hdata, hflags⟩ :=
          mountVolume_ok h
        obtain ⟨hbuf, rfl⟩ := ahciReadSectors_ok hread
        -- the boot sector is the first sector of the disk
        have hbs : BootSector.ofBytes buf = BootSector.ofBytes st.disk := by
          apply BootSector.ofBytes_congr
          intro i hi
          have hzero : (0 : UInt32).toNat * 512 + i = i := by
            rw [UInt32.toNat_zero, Nat.zero_mul, Nat.zero_add]
          rw [hbuf i hi, hzero]
          rfl
        rw [hbs] at hvalid hfs hcached hdata
        refine ⟨node, hroot, ?_⟩
        constructor
        · exact hvalid
        · rw [hfs]
          rfl
        · rw [hfs]
          exact hpage
        · exact hdisk
        · rw [hfs]
          exact hcached
        · rw [hfs]
          exact ⟨hdata, hflags⟩

end Rhoudveine.Fat32
