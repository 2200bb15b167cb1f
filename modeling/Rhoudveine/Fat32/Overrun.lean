import Rhoudveine.Fat32.Create
import Rhoudveine.Fat32.File
import Rhoudveine.Fat32.Listing
import Rhoudveine.Fat32.WriteBack

/-!
# Accesses beyond a page

Cluster buffers and the FAT cache have one page each.  The sizes of transfers and the cluster
numbers come from the disk, and only the former are checked, by `fat32_mount`, against more than a
page.
-/

namespace Rhoudveine.Fat32
open Fs Mm LittleEndian

/-! ## Sessions -/

/-- A mounted volume and the nodes that lookups have returned, after the root. -/
structure Session where
  vol : Volume
  nodes : List Node

inductive NodeOp
  | read (offset : UInt64) (size : UInt32)
  | write (offset : UInt64) (size : UInt32) (buffer : ℕ → UInt8)
  | finddir (name : Str)
  | readdir (index : UInt32)
  | create (name : Str) (flags : UInt32)

/-- An operation on node number `i`; `fat32_create_entry` and `fat32_alloc_cluster` are called by
`fat32_create` and `fat32_write`. -/
def nodeCall (dev : Device) (fuel : ℕ) (s : Session) (i : ℕ) (node : Node) :
    NodeOp → Option Session
  | .read offset size => some ⟨(fat32Read dev s.vol node offset size).2.2, s.nodes⟩
  | .write offset size buffer =>
    let out := fat32Write dev s.vol node offset size buffer
    some ⟨out.2.2, s.nodes.set i out.2.1⟩
  | .finddir name => (fat32Finddir dev fuel s.vol node name).map fun out =>
      ⟨out.2, s.nodes ++ out.1.toList⟩
  | .readdir index => (fat32Readdir dev fuel s.vol node index).map fun out =>
      ⟨out.2, s.nodes ++ out.1.toList⟩
  | .create name flags => (fat32Create dev fuel s.vol node name flags).map fun out =>
      ⟨out.2, s.nodes⟩

/-- An operation that returns. -/
def nodeStep (dev : Device) (s : Session) (c : ℕ × NodeOp) (s' : Session) : Prop :=
  ∃ node fuel, s.nodes[c.1]? = some node ∧ nodeCall dev fuel s c.1 node c.2 = some s'

/-- Within the page.  What a call looks at or copies in a cluster buffer lies in what it transfers
there. -/
def Access.Inside (a : Access) : Prop := a.start + a.len ≤ 4096

/-- On every disk with this boot sector, whatever is done after the mount stays within pages. -/
def AccessesInside (bs : BootSector) : Prop :=
  ∀ (dev : Device) (st st' : Volume) (device : Option Str) (root : Node),
    BootSector.ofBytes st.disk = bs → fat32Mount dev st device = (0, some root, st') →
    ∀ calls s, Run (nodeStep dev) ⟨st', [root]⟩ calls s →
      ∀ a ∈ s.vol.accesses.drop st'.accesses.length, a.Inside

/-- The root directory has no cluster, and no cluster can be allocated. -/
def NoClusters (bs : BootSector) : Prop := endOfChain ≤ bs.rootCluster ∧ bs.totalClusters ≤ 2

/-! ## Volumes without clusters -/

section idle

variable {dev : Device} {st : Volume} {node : Node}

/-- A node behind which there is no cluster. -/
def Idle (node : Node) : Prop :=
  node.size = 0 ∧ ∃ data, node.data = some data ∧ endOfChain ≤ data.firstCluster

theorem Idle.read (h : Idle node) (offset : UInt64) (size : UInt32) :
    fat32Read dev st node offset size = (0, [], st) := by
  obtain ⟨hsize, data, hdata, -⟩ := h
  have hge : offset ≥ node.size.toUInt64 := by
    rw [hsize]
    exact UInt64.zero_le
  rw [fat32Read, hdata]
  exact if_pos hge

theorem fat32AllocCluster_none (h : st.fs.bs.totalClusters ≤ 2) :
    fat32AllocCluster dev st = (0, st) := by
  have hrounds : st.fs.bs.totalClusters.toNat - 2 = 0 := by
    have hle : st.fs.bs.totalClusters.toNat ≤ 2 := UInt32.le_iff_toNat_le.mp h
    omega
  unfold fat32AllocCluster
  rw [hrounds, allocLoop]
  split <;> rfl

theorem Idle.write (h : Idle node) (hfull : st.fs.bs.totalClusters ≤ 2) (offset : UInt64)
    (size : UInt32) (buffer : ℕ → UInt8) :
    fat32Write dev st node offset size buffer = (-1, node, st) := by
  obtain ⟨-, data, hdata, hend⟩ := h
  have hstart : startCluster dev st data.firstCluster = (0, st) := by
    rw [startCluster, if_pos (Or.inr hend), fat32AllocCluster_none hfull]
  unfold fat32Write
  rw [hdata]
  dsimp only
  rw [hstart]
  rfl

theorem Idle.scan {accept : UInt32 → Lfn → Record → Bool} (h : Idle node) {fuel : ℕ}
    {found : Option Node} {t : Volume} (hs : fat32Scan dev accept fuel st node = some (found, t)) :
    found = none ∧ t.fs = st.fs ∧ t.accesses = st.accesses := by
  obtain ⟨-, data, hdata, hend⟩ := h
  unfold fat32Scan at hs
  rw [hdata] at hs
  dsimp only [Volume.alloc] at hs
  split at hs
  · cases hs
    exact ⟨rfl, rfl, rfl⟩
  · cases fuel with
    | zero => cases hs
    | succ fuel =>
      rw [scanChain, if_pos hend] at hs
      cases hs
      exact ⟨rfl, rfl, rfl⟩

theorem Idle.createEntry (h : Idle node) {fuel : ℕ} {name : Str} {attr : UInt8} {r : ℤ}
    {t : Volume} (hc : fat32CreateEntry dev fuel st node name attr = some (r, t)) :
    t.fs = st.fs ∧ t.accesses = st.accesses := by
  obtain ⟨-, data, hdata, hend⟩ := h
  unfold fat32CreateEntry at hc
  rw [hdata] at hc
  dsimp only [Volume.alloc] at hc
  split at hc
  · cases hc
    exact ⟨rfl, rfl⟩
  · cases fuel with
    | zero => cases hc
    | succ fuel =>
      rw [findTarget, if_pos hend] at hc
      cases hc
      exact ⟨rfl, rfl⟩

theorem Idle.create (h : Idle node) {fuel : ℕ} {name : Str} {flags : UInt32} {r : ℤ}
    {t : Volume} (hc : fat32Create dev fuel st node name flags = some (r, t)) :
    t.fs = st.fs ∧ t.accesses = st.accesses := by
  unfold fat32Create at hc
  split at hc
  · cases hc
    exact ⟨rfl, rfl⟩
  · cases hfind : fat32Finddir dev fuel st node name with
    | none =>
      rw [hfind] at hc
      cases hc
    | some out =>
      obtain ⟨found, u⟩ := out
      obtain ⟨rfl, hfs, haccesses⟩ := h.scan hfind
      rw [hfind] at hc
      obtain ⟨hfs', haccesses'⟩ := h.createEntry hc
      exact ⟨hfs'.trans hfs, haccesses'.trans haccesses⟩

/-- The volume and its nodes have no clusters, and nothing has been accessed. -/
structure Unentered (st : Volume) (s : Session) : Prop where
  fs : s.vol.fs = st.fs
  accesses : s.vol.accesses = st.accesses
  nodes : ∀ node ∈ s.nodes, Idle node

theorem Unentered.step {s s' : Session} {c : ℕ × NodeOp} (h : Unentered st s)
    (hfull : st.fs.bs.totalClusters ≤ 2) (hs : nodeStep dev s c s') : Unentered st s' := by
  obtain ⟨node, fuel, hnode, hcall⟩ := hs
  have hidle := h.nodes node (List.mem_of_getElem? hnode)
  have hfull' : s.vol.fs.bs.totalClusters ≤ 2 := by rwa [h.fs]
  obtain ⟨i, op⟩ := c
  have hlookup {found : Option Node} {t : Volume} (hfound : found = none) (hfs : t.fs = s.vol.fs)
      (haccesses : t.accesses = s.vol.accesses) : Unentered st ⟨t, s.nodes ++ found.toList⟩ := by
    rw [hfound, Option.toList_none, List.append_nil]
    exact ⟨hfs.trans h.fs, haccesses.trans h.accesses, h.nodes⟩
  cases op with
  | read offset size =>
    rw [nodeCall, hidle.read] at hcall
    cases hcall
    exact h
  | write offset size buffer =>
    rw [nodeCall, hidle.write hfull'] at hcall
    obtain rfl := Option.some.inj hcall
    refine ⟨h.fs, h.accesses, fun m hm => ?_⟩
    rcases List.mem_or_eq_of_mem_set hm with hm | rfl
    · exact h.nodes m hm
    · exact hidle
  | finddir name =>
    obtain ⟨⟨found, t⟩, hscan, rfl⟩ := Option.map_eq_some_iff.mp hcall
    obtain ⟨hfound, hfs, haccesses⟩ := hidle.scan hscan
    exact hlookup hfound hfs haccesses
  | readdir index =>
    obtain ⟨⟨found, t⟩, hscan, rfl⟩ := Option.map_eq_some_iff.mp hcall
    obtain ⟨hfound, hfs, haccesses⟩ := hidle.scan hscan
    exact hlookup hfound hfs haccesses
  | create name flags =>
    obtain ⟨⟨r, t⟩, hcreate, rfl⟩ := Option.map_eq_some_iff.mp hcall
    obtain ⟨hfs, haccesses⟩ := hidle.create hcreate
    exact ⟨hfs.trans h.fs, haccesses.trans h.accesses, h.nodes⟩

end idle

/-! ## A disk for every boot sector -/

/-- The boot sector with these fields, which is also a directory record: a file that is said to
start at cluster 1024 and to have 2³² - 1 bytes. -/
def sectorByte (bs : BootSector) (k : ℕ) : UInt8 :=
  if k = 0 then 0x41
  else if k = 11 ∨ k = 12 then leByte bs.bytesPerSector.toNat (k - 11)
  else if k = 13 then bs.sectorsPerCluster
  else if k = 14 ∨ k = 15 then leByte bs.reservedSectors.toNat (k - 14)
  else if k = 16 then bs.numFats
  else if k = 27 then 0x04
  else if 28 ≤ k ∧ k < 32 then 0xFF
  else if 32 ≤ k ∧ k < 36 then leByte bs.totalSectors32.toNat (k - 32)
  else if 36 ≤ k ∧ k < 40 then leByte bs.fatSize32.toNat (k - 36)
  else if 44 ≤ k ∧ k < 48 then leByte bs.rootCluster.toNat (k - 44)
  else if 67 ≤ k ∧ k < 71 then leByte bs.volumeId.toNat (k - 67)
  else 0

/-- A disk on which every sector is the boot sector. -/
def repeated (bs : BootSector) (a : ℕ) : UInt8 := sectorByte bs (a % 512)

theorem ofBytes_repeated (bs : BootSector) : BootSector.ofBytes (repeated bs) = bs := by
  have h16 (i : ℕ) (v : UInt16) (h : ∀ k < 2, repeated bs (i + k) = leByte v.toNat k) :
      UInt16.ofNat (le (repeated bs) i 2) = v := by
    have hlt : v.toNat < 256 ^ 2 := v.toNat_lt
    rw [le_leByte h, Nat.mod_eq_of_lt hlt, UInt16.ofNat_toNat]
  have h32 (i : ℕ) (v : UInt32) (h : ∀ k < 4, repeated bs (i + k) = leByte v.toNat k) :
      UInt32.ofNat (le (repeated bs) i 4) = v := by
    have hlt : v.toNat < 256 ^ 4 := v.toNat_lt
    rw [le_leByte h, Nat.mod_eq_of_lt hlt, UInt32.ofNat_toNat]
  have hbytes := h16 11 bs.bytesPerSector fun k hk => by interval_cases k <;> rfl
  have hreserved := h16 14 bs.reservedSectors fun k hk => by interval_cases k <;> rfl
  have htotal := h32 32 bs.totalSectors32 fun k hk => by interval_cases k <;> rfl
  have hfat := h32 36 bs.fatSize32 fun k hk => by interval_cases k <;> rfl
  have hroot := h32 44 bs.rootCluster fun k hk => by interval_cases k <;> rfl
  have hid := h32 67 bs.volumeId fun k hk => by interval_cases k <;> rfl
  rw [BootSector.ofBytes, hbytes, hreserved, htotal, hfat, hroot, hid]
  rfl

/-- What the first 32 bytes are as a record. -/
structure LeadsOut (r : Record) : Prop where
  first : r 0 = 0x41
  attr : r.attr = 0
  cluster : r.firstCluster = 1024
  size : r.fileSize = 0xFFFFFFFF

theorem leadsOut {bs : BootSector} (hvalid : bs.valid = true) {r : Record}
    (h : ∀ k < 32, r k = sectorByte bs k) : LeadsOut r := by
  have hbytes := (BootSector.valid_iff.mp hvalid).1
  have hword (i n v : ℕ) (hv : v < 256 ^ n) (hin : i + n ≤ 32)
      (hbytes : ∀ k < n, sectorByte bs (i + k) = leByte v k) : le r i n = v := by
    have hle : le r i n = v % 256 ^ n :=
      le_leByte fun k hk => (h (i + k) (by omega)).trans (hbytes k hk)
    rw [hle, Nat.mod_eq_of_lt hv]
  have hhigh := hword 20 2 0 (by norm_num) (by norm_num) fun k hk => by interval_cases k <;> rfl
  have hlow := hword 26 2 1024 (by norm_num) (by norm_num) fun k hk => by
    interval_cases k <;> rfl
  have hsize := hword 28 4 0xFFFFFFFF (by norm_num) (by norm_num) fun k hk => by
    interval_cases k <;> rfl
  constructor
  · exact h 0 (by norm_num)
  · rw [Record.attr, h 11 (by norm_num), sectorByte, hbytes]
    rfl
  · rw [Record.firstCluster, hhigh, hlow]
    rfl
  · rw [Record.fileSize, hsize]
    rfl

/-! ## The way out -/

section overrun

variable {dev : Device} {bs : BootSector} {st : Volume} {node : Node} {data : NodeData}

theorem fat32GetFatEntry_accesses (c : UInt32) :
    st.accesses <+: (fat32GetFatEntry st c).2.accesses := by
  unfold fat32GetFatEntry
  split
  · exact List.prefix_rfl
  · exact List.prefix_append _ _

theorem readClusters_accesses {page : UInt64} {clusterSize : UInt32} {rounds : ℕ}
    {size cluster clusterOffset : UInt32} {buf : ℕ → UInt8} {bytes : List UInt8} :
    st.accesses <+: (readClusters dev page clusterSize rounds size cluster clusterOffset buf bytes
      st).2.accesses := by
  induction rounds generalizing size cluster clusterOffset buf bytes st with
  | zero => exact List.prefix_rfl
  | succ rounds ih =>
    rw [readClusters]
    split
    · have hread : st.accesses <+: (fat32ReadCluster dev st cluster page buf).2.2.accesses :=
        List.prefix_append _ _
      generalize fat32ReadCluster dev st cluster page buf = out at hread
      obtain ⟨ok, buf', t⟩ := out
      cases ok with
      | false => exact hread
      | true => exact (hread.trans (fat32GetFatEntry_accesses cluster)).trans ih
    · exact List.prefix_rfl

/-- Reading the second cluster of a file at cluster 1024 looks up its FAT entry. -/
theorem fat32Read_beyond (hmounted : Mounted st.fs) {parent : UInt32}
    (hdata : node.data = some ⟨1024, parent⟩) (hsize : node.size = 0xFFFFFFFF) :
    st.accesses ++ [⟨st.fs.fatCachePage, 4096, 4⟩] <+:
      (fat32Read dev st node st.fs.bs.clusterSize.toUInt64 1).2.2.accesses := by
  have hcluster := hmounted.toNat_clusterSize
  have hpos := hmounted.sectors_pos
  have hle := hmounted.sectors_le
  have hlt : ¬ st.fs.bs.clusterSize.toUInt64 ≥ node.size.toUInt64 := by
    rw [hsize, ge_iff_le, UInt64.le_iff_toNat_le, UInt32.toNat_toUInt64, UInt32.toNat_toUInt64]
    change ¬ 4294967295 ≤ _
    omega
  have hskip : (st.fs.bs.clusterSize.toUInt64 / st.fs.bs.clusterSize.toUInt64).toUInt32.toNat =
      1 := by
    rw [UInt64.toNat_toUInt32, UInt64.toNat_div, UInt32.toNat_toUInt64, Nat.div_self (by omega)]
  have hget : fat32GetFatEntry st 1024 =
      (st.fatCache 1024 &&& 0x0FFFFFFF, st.touch st.fs.fatCachePage 4096 4) := by
    rw [fat32GetFatEntry, if_neg (not_not.mpr hmounted.cached)]
    rfl
  unfold fat32Read
  rw [hdata]
  dsimp only
  rw [if_neg hlt, hskip, skipClusters, hget]
  dsimp only
  by_cases hend : st.fatCache 1024 &&& 0x0FFFFFFF ≥ endOfChain
  · rw [if_pos hend]
    exact List.prefix_rfl
  · rw [if_neg hend, skipClusters]
    dsimp only [Volume.alloc]
    exact @readClusters_accesses dev { st.touch st.fs.fatCachePage 4096 4 with
      pfa := (pfaAlloc st.pfa).2 } _ _ _ _ _ _ _ _

/-- A scan of a directory that begins with the record. -/
theorem fat32Readdir_first (hbs : bs.valid = true) (hmounted : Mounted st.fs)
    (hroom : ThreeFree st.pfa) (hdata : node.data = some data)
    (hlt : data.firstCluster < endOfChain)
    (hdisk : ∀ k < 32, st.disk (clusterStart st.fs data.firstCluster + k) = sectorByte bs k) :
    ∃ child t parent, fat32Readdir goodDevice 1 st node 0 = some (some child, t) ∧
      child.data = some ⟨1024, parent⟩ ∧ child.size = 0xFFFFFFFF ∧ t.fs = st.fs ∧
      st.accesses <+: t.accesses := by
  obtain ⟨hbuf, hpage, hdatapage⟩ := hroom
  have hentries : ∃ n, st.fs.bs.entriesPerCluster.toNat = n + 1 := by
    have hpos := hmounted.sectors_pos
    rw [hmounted.toNat_entriesPerCluster]
    exact ⟨16 * st.fs.bs.sectorsPerCluster.toNat - 1, by omega⟩
  obtain ⟨n, hn⟩ := hentries
  obtain ⟨buf, t, hread, hsame, hpfa, hbytes⟩ :=
    @fat32ReadCluster_ok goodDevice st.alloc.2 (fun _ => rfl) data.firstCluster
      (pfaAlloc st.pfa).1 (goodDevice.leftover (pfaAlloc st.pfa).1)
  have haccesses : st.accesses <+: t.accesses := by
    have hlog := congrArg (fun out => out.2.2.accesses) hread
    exact hlog ▸ List.prefix_append _ _
  have hrecord : LeadsOut (recordAt buf 0) := by
    apply leadsOut hbs
    intro k hk
    have hpos : 0 < st.alloc.2.fs.bs.sectorsPerCluster.toNat := hmounted.sectors_pos
    rw [recordAt, Nat.mul_zero, Nat.zero_add]
    exact (hbytes k (by omega)).trans (hdisk k hk)
  have hscan : scanEntries (fun seen _ _ => decide (seen = 0)) buf
      t.fs.bs.entriesPerCluster.toNat 0 0 .clear = .hit (recordAt buf 0) .clear := by
    rw [hsame.fs]
    change scanEntries _ buf st.fs.bs.entriesPerCluster.toNat 0 0 .clear = _
    rw [hn, scanEntries, hrecord.first, hrecord.attr]
    rfl
  have hchain : scanChain goodDevice (fun seen _ _ => decide (seen = 0)) (pfaAlloc st.pfa).1 1
      data.firstCluster (goodDevice.leftover (pfaAlloc st.pfa).1) 0 .clear st.alloc.2 =
        some (some (recordAt buf 0, .clear), t) := by
    rw [scanChain, if_neg (UInt32.not_le.mpr hlt), hread]
    dsimp only
    rw [hscan]
  have hpfa' : t.pfa = (pfaAlloc st.pfa).2 := hpfa
  rw [← hpfa'] at hpage hdatapage
  unfold fat32Readdir fat32Scan
  rw [hdata]
  dsimp only [Volume.alloc] at hchain ⊢
  rw [if_neg hbuf, hchain]
  dsimp only
  unfold makeNode
  dsimp only [Volume.alloc]
  rw [if_neg hpage]
  refine ⟨_, _, data.firstCluster, rfl, ?_, hrecord.size, hsame.fs, haccesses⟩
  rw [if_neg hdatapage, hrecord.cluster]

/-! ## From the mount on -/

/-- A volume whose root directory begins with the record leads a reader out of the cache. -/
theorem reads_outside (hbs : bs.valid = true) (hmounted : Mounted st.fs) (hroom : ThreeFree st.pfa)
    (hdata : node.data = some data) (hlt : data.firstCluster < endOfChain)
    (hdisk : ∀ k < 32, st.disk (clusterStart st.fs data.firstCluster + k) = sectorByte bs k) :
    ∃ calls s, Run (nodeStep goodDevice) ⟨st, [node]⟩ calls s ∧
      ∃ accesses, st.accesses ++ accesses <+: s.vol.accesses ∧
        ⟨st.fs.fatCachePage, 4096, 4⟩ ∈ accesses := by
  obtain ⟨child, t, parent, hreaddir, hchild, hsize, hfs, ⟨seen, hseen⟩⟩ :=
    fat32Readdir_first hbs hmounted hroom hdata hlt hdisk
  rw [← hfs] at hmounted
  have hread := @fat32Read_beyond goodDevice t child hmounted parent hchild hsize
  refine ⟨[(0, .readdir 0), (1, .read t.fs.bs.clusterSize.toUInt64 1)],
    ⟨(fat32Read goodDevice t child t.fs.bs.clusterSize.toUInt64 1).2.2, [node, child]⟩,
    .cons (t := ⟨t, [node, child]⟩) ⟨node, 1, rfl, ?_⟩ (.cons ⟨child, 1, rfl, rfl⟩ (.nil _)),
    seen ++ [⟨st.fs.fatCachePage, 4096, 4⟩], ?_, List.mem_append_right _ (List.mem_singleton_self _)⟩
  · rw [nodeCall, hreaddir]
    rfl
  · rw [← List.append_assoc, hseen, ← hfs]
    exact hread

/-- Cluster 2 is allocated where it is free. -/
theorem fat32AllocCluster_two (hmounted : Mounted st.fs) (hroom : 2 < st.fs.bs.totalClusters)
    (hfree : fatLink st 2 = 0) :
    ∃ t, fat32AllocCluster goodDevice st = (2, t) ∧ t.fs = st.fs ∧ t.pfa = st.pfa ∧
      st.accesses <+: t.accesses := by
  have hrounds : ∃ n, st.fs.bs.totalClusters.toNat - 2 = n + 1 := by
    have hlt : 2 < st.fs.bs.totalClusters.toNat := UInt32.lt_iff_toNat_lt.mp hroom
    exact ⟨st.fs.bs.totalClusters.toNat - 3, by omega⟩
  obtain ⟨n, hn⟩ := hrounds
  have hcached := not_not.mpr hmounted.cached
  have hget : fat32GetFatEntry st 2 = (0, st.touch st.fs.fatCachePage 8 4) := by
    rw [fat32GetFatEntry, if_neg hcached]
    exact congrArg (·, _) hfree
  have hset := @fat32SetFatEntry_valid (st.touch st.fs.fatCachePage 8 4) hmounted.cached 2
    0x0FFFFFFF
  refine ⟨(writeFat goodDevice (fat32SetFatEntry (st.touch st.fs.fatCachePage 8 4) 2
    0x0FFFFFFF)).2, ?_, ?_, ?_, ?_⟩
  · rw [fat32AllocCluster, if_neg hcached, hn, allocLoop, hget]
    dsimp only
    rw [if_pos rfl]
    rfl
  · rw [hset]
    rfl
  · rw [hset]
    rfl
  · rw [hset]
    exact (List.prefix_append _ _).trans ((List.prefix_append _ _).trans (List.prefix_append _ _))

/-- Writing 32 bytes at the start of a cluster. -/
theorem writeClusters_once (hmounted : Mounted st.fs) (page : UInt64) (cluster : UInt32)
    (buffer buf : ℕ → UInt8) :
    ∃ t, writeClusters goodDevice page st.fs.bs.clusterSize buffer 32 32 cluster 0 buf 0 st =
        (32, true, t) ∧ t.fs = st.fs ∧ t.pfa = st.pfa ∧ st.accesses <+: t.accesses ∧
      ∀ k < 32, t.disk (clusterStart st.fs cluster + k) = buffer k := by
  have hcluster := hmounted.toNat_clusterSize
  have hpos := hmounted.sectors_pos
  have hsmall : (32 : UInt32) < st.fs.bs.clusterSize := by
    rw [UInt32.lt_iff_toNat_lt, hcluster]
    change 32 < _
    omega
  have hcopy : copySize st.fs.bs.clusterSize 0 32 = 32 := by
    rw [copySize, UInt32.sub_zero]
    exact if_pos hsmall
  obtain ⟨old, t, hload, hfs, hpfa, haccesses⟩ : ∃ old t,
      loadForWrite goodDevice st page st.fs.bs.clusterSize 32 cluster 0 buf = (old, t) ∧
        t.fs = st.fs ∧ t.pfa = st.pfa ∧ st.accesses <+: t.accesses := by
    rw [loadForWrite, if_pos (Or.inr hsmall)]
    exact ⟨_, _, rfl, rfl, rfl, List.prefix_append _ _⟩
  have hround : writeClusters goodDevice page st.fs.bs.clusterSize buffer (31 + 1) 32 cluster 0 buf
      0 st = (32, true, (fat32WriteCluster goodDevice t cluster page fun i =>
        if 0 ≤ i ∧ i < 0 + 32 then buffer (0 + (i - 0)) else old i).2) := by
    rw [writeClusters, if_neg (by decide), hload]
    dsimp only
    rw [hcopy]
    rfl
  refine ⟨_, hround, hfs, hpfa, haccesses.trans (List.prefix_append _ _), fun k hk => ?_⟩
  have hinside : clusterStart st.fs cluster ≤ clusterStart st.fs cluster + k ∧
      clusterStart st.fs cluster + k <
        clusterStart st.fs cluster + st.fs.bs.sectorsPerCluster.toUInt32.toNat * 512 := by
    rw [UInt8.toNat_toUInt32]
    omega
  rw [← hfs] at hinside ⊢
  refine (if_pos hinside).trans ?_
  have hplace : clusterStart t.fs cluster + k - (fat32ClusterToSector t.fs cluster).toNat * 512 =
      k := Nat.add_sub_cancel_left _ _
  rw [hplace]
  exact (if_pos ⟨Nat.zero_le k, hk⟩).trans (congrArg buffer (Nat.zero_add k))

/-- Writing the record into a directory without a cluster gives it one. -/
theorem fat32Write_first (hmounted : Mounted st.fs) (hroom : 2 < st.fs.bs.totalClusters)
    (hfree : fatLink st 2 = 0) (hdata : node.data = some data)
    (hend : endOfChain ≤ data.firstCluster) (buffer : ℕ → UInt8) :
    ∃ r node' t, fat32Write goodDevice st node 0 32 buffer = (r, node', t) ∧
      node'.data = some { data with firstCluster := 2 } ∧ t.fs = st.fs ∧
      t.pfa = pfaFree (pfaAlloc st.pfa).2 (pfaAlloc st.pfa).1 ∧ st.accesses <+: t.accesses ∧
      ∀ k < 32, t.disk (clusterStart t.fs 2 + k) = buffer k := by
  obtain ⟨t, halloc, hfs, hpfa, haccesses⟩ := fat32AllocCluster_two hmounted hroom hfree
  have hstart : startCluster goodDevice st data.firstCluster = (2, t) := by
    rw [startCluster, if_pos (Or.inr hend), halloc]
  have hmounted' : Mounted t.alloc.2.fs := by
    change Mounted t.fs
    rwa [hfs]
  obtain ⟨u, hwrite, hfs', hpfa', haccesses', hdisk⟩ :=
    writeClusters_once hmounted' t.alloc.1 2 buffer (goodDevice.leftover t.alloc.1)
  have hsize : t.alloc.2.fs.bs.clusterSize = st.fs.bs.clusterSize := by
    change t.fs.bs.clusterSize = _
    rw [hfs]
  have hskip : ((0 : UInt64) / st.fs.bs.clusterSize.toUInt64).toUInt32.toNat = 0 := by
    rw [UInt64.zero_div]
    rfl
  have hoffset : ((0 : UInt64) % st.fs.bs.clusterSize.toUInt64).toUInt32 = 0 := by
    rw [UInt64.zero_mod]
    rfl
  rw [hsize] at hwrite
  unfold fat32Write
  rw [hdata]
  dsimp only
  rw [hstart]
  dsimp only
  rw [if_neg (by decide), hskip, skipExtending]
  dsimp only
  rw [hoffset]
  have hwrite' : writeClusters goodDevice t.alloc.1 st.fs.bs.clusterSize buffer
      (32 : UInt32).toNat 32 2 0 (goodDevice.leftover t.alloc.1) 0 t.alloc.2 = (32, true, u) :=
    hwrite
  rw [hwrite']
  refine ⟨_, _, _, rfl, ?_, hfs'.trans hfs, ?_, haccesses.trans haccesses', fun k hk => ?_⟩
  · split <;> rfl
  · change pfaFree u.pfa (pfaAlloc t.pfa).1 = _
    rw [hpfa', ← hpfa]
    rfl
  · change u.disk (clusterStart u.fs 2 + k) = _
    rw [hfs']
    exact hdisk k hk

end overrun

/-! ## The boot sectors -/

/-- The frames after the boot sector is read. -/
def readPfa (s : Pfa) : Pfa :=
  pfaFree (pfaAlloc (pfaAlloc s).2).2 (pfaAlloc (pfaAlloc s).2).1

/-- The frames after a mount. -/
def mountedPfa (s : Pfa) : Pfa := (pfaAlloc (pfaAlloc (pfaAlloc (readPfa s)).2).2).2

theorem ahciReadSectors_good (st : Volume) (lba count : UInt32) (page : UInt64)
    (old : ℕ → UInt8) :
    ∃ buf t, ahciReadSectors goodDevice st lba count page old = (true, buf, t) ∧
      t.disk = st.disk ∧ t.pfa = st.pfa ∧
      ∀ i, buf i = if i < count.toNat * 512 then st.disk (lba.toNat * 512 + i) else old i :=
  ⟨_, _, rfl, rfl, rfl, fun _ => rfl⟩

/-- The root directory is said to be empty. -/
theorem fat32Mount_size {dev : Device} {st st' : Volume} {device : Option Str} {root : Node}
    (h : fat32Mount dev st device = (0, some root, st')) : root.size = 0 := by
  simp only [fat32Mount, mountVolume, mountRoot] at h
  repeat' split at h
  all_goals cases h
  rfl

theorem mountRoot_good {st : Volume} (fsPage : UInt64) (hpage : (pfaAlloc st.pfa).1 ≠ 0)
    (hdata : (pfaAlloc (pfaAlloc st.pfa).2).1 ≠ 0) :
    ∃ root st', mountRoot st fsPage = (0, some root, st') ∧
      st'.pfa = (pfaAlloc (pfaAlloc st.pfa).2).2 ∧ st'.fatCache = st.fatCache := by
  unfold mountRoot
  dsimp only [Volume.alloc]
  rw [if_neg hpage, if_neg hdata]
  exact ⟨_, _, rfl, rfl, rfl⟩

/-- A word of the cache has been read, or it is left over from the zeroed page. -/
theorem bufferWords_good {st t : Volume} {lba count : UInt32} {page : UInt64} {buf : ℕ → UInt8}
    (h : ahciReadSectors goodDevice st lba count page (goodDevice.leftover page) = (true, buf, t))
    (e : ℕ) : bufferWords buf e = 0 ∨
      bufferWords buf e = UInt32.ofNat (le st.disk (lba.toNat * 512 + 4 * e) 4) := by
  by_cases he : e < count.toNat * 128
  · exact Or.inr (bufferWords_read h he)
  · left
    have hzero : le buf (4 * e) 4 = 0 := by
      apply le_zero
      intro k hk
      have hbuf := congrArg (fun out => out.2.1 (4 * e + k)) h
      have hbeyond : ¬ 4 * e + k < count.toNat * 512 := by omega
      exact hbuf.symm.trans (if_neg hbeyond)
    rw [bufferWords, hzero]
    rfl

theorem mountVolume_good {st : Volume} {bs : BootSector} (fsPage : UInt64)
    (hvalid : bs.valid = true) (hroom : ThreeFree st.pfa) :
    ∃ root st', mountVolume goodDevice st none fsPage bs = (0, some root, st') ∧
      st'.pfa = (pfaAlloc (pfaAlloc (pfaAlloc st.pfa).2).2).2 ∧
      ∀ e, st'.fatCache e = 0 ∨ st'.fatCache e =
        UInt32.ofNat (le st.disk (bs.reservedSectors.toUInt32.toNat * 512 + 4 * e) 4) := by
  obtain ⟨hcache, hpage, hdata⟩ := hroom
  obtain ⟨buf, t, hread, hdisk, hpfa, -⟩ := ahciReadSectors_good
    { st with pfa := (pfaAlloc st.pfa).2 } bs.reservedSectors.toUInt32 bs.sectorsToRead
    (pfaAlloc st.pfa).1 (goodDevice.leftover (pfaAlloc st.pfa).1)
  have hpfa' : t.pfa = (pfaAlloc st.pfa).2 := hpfa
  rw [← hpfa'] at hpage hdata
  obtain ⟨root, st', hroot, hst', hwords⟩ := @mountRoot_good
    { t with fs := Fat32Fs.ofBootSector bs (pfaAlloc st.pfa).1, fatCache := bufferWords buf }
    fsPage hpage hdata
  have hmatches : deviceMatches none bs = true := rfl
  refine ⟨root, st', ?_, ?_, fun e => ?_⟩
  · unfold mountVolume
    dsimp only [Volume.alloc, Fat32Fs.ofBootSector] at hread ⊢
    rw [if_neg (not_not.mpr hmatches), if_neg (not_not.mpr hvalid), if_neg hcache, hread]
    exact hroot
  · rw [hst', ← hpfa']
  · rw [hwords]
    exact bufferWords_good hread e

/-- With frames and transfers at hand, a valid volume is mounted. -/
theorem fat32Mount_good {st : Volume} (hvalid : (BootSector.ofBytes st.disk).valid = true)
    (hfs : (pfaAlloc st.pfa).1 ≠ 0) (hsector : (pfaAlloc (pfaAlloc st.pfa).2).1 ≠ 0)
    (hroom : ThreeFree (readPfa st.pfa)) :
    ∃ root st', fat32Mount goodDevice st none = (0, some root, st') ∧
      st'.pfa = mountedPfa st.pfa ∧ ∀ e, st'.fatCache e = 0 ∨ ∃ sector, st'.fatCache e =
        UInt32.ofNat (le st.disk (sector * 512 + 4 * e) 4) := by
  obtain ⟨buf, t, hread, hdisk, hpfa, hbuf⟩ := ahciReadSectors_good
    { st with pfa := (pfaAlloc (pfaAlloc st.pfa).2).2 } 0 1 (pfaAlloc (pfaAlloc st.pfa).2).1
    (goodDevice.leftover (pfaAlloc (pfaAlloc st.pfa).2).1)
  have hbs : BootSector.ofBytes buf = BootSector.ofBytes st.disk := by
    apply BootSector.ofBytes_congr
    intro i hi
    have hzero : (0 : UInt32).toNat * 512 + i = i := by
      rw [UInt32.toNat_zero, Nat.zero_mul, Nat.zero_add]
    rw [hbuf i, hzero]
    exact if_pos hi
  have hfreed : (t.free (pfaAlloc (pfaAlloc st.pfa).2).1).pfa = readPfa st.pfa := by
    rw [Volume.free, hpfa]
    rfl
  rw [← hbs] at hvalid
  rw [← hfreed] at hroom
  obtain ⟨root, st', hmount, hst', hwords⟩ := mountVolume_good (pfaAlloc st.pfa).1 hvalid hroom
  refine ⟨root, st', ?_, ?_, fun e => ?_⟩
  · unfold fat32Mount
    dsimp only [Volume.alloc] at hread ⊢
    rw [if_neg hfs, if_neg hsector, hread]
    exact hmount
  · rw [hst', hfreed]
    rfl
  · exact (hwords e).imp_right fun h => ⟨_, h.trans (by rw [← hdisk]; rfl)⟩

theorem fat32Mount_repeated {bs : BootSector} (hbs : bs.valid = true) :
    ∃ root st', fat32Mount goodDevice (unmounted (repeated bs)) none = (0, some root, st') ∧
      st'.pfa = mountedPfa freshPfa ∧ fatLink st' 2 = 0 := by
  have hvalid : (BootSector.ofBytes (unmounted (repeated bs)).disk).valid = true :=
    (congrArg BootSector.valid (ofBytes_repeated bs)).trans hbs
  have hroom : ThreeFree (readPfa freshPfa) := by
    unfold ThreeFree
    decide +kernel
  have hfs : (pfaAlloc freshPfa).1 ≠ 0 := by decide +kernel
  have hsector : (pfaAlloc (pfaAlloc freshPfa).2).1 ≠ 0 := by decide +kernel
  obtain ⟨root, st', hmount, hpfa, hwords⟩ :=
    @fat32Mount_good (unmounted (repeated bs)) hvalid hfs hsector hroom
  refine ⟨root, st', hmount, hpfa, ?_⟩
  -- bytes 8 to 11 of a sector
  have hword : st'.fatCache 2 = 0 := by
    obtain hzero | ⟨sector, hsector⟩ := hwords 2
    · exact hzero
    · have hbytes := (BootSector.valid_iff.mp hbs).1
      have hle : le (repeated bs) (sector * 512 + 4 * 2) 4 = 0 := by
        apply le_zero
        intro k hk
        have hmod : (sector * 512 + 4 * 2 + k) % 512 = 8 + k := by omega
        rw [repeated, hmod]
        interval_cases k
        · rfl
        · rfl
        · rfl
        · rw [sectorByte, hbytes]
          rfl
      rw [hsector]
      exact congrArg UInt32.ofNat hle
  rw [fatLink]
  exact congrArg (· &&& 0x0FFFFFFF) hword

section

variable {bs : BootSector} {st st' : Volume} {root : Node}

/-- A run that accesses what is behind a page. -/
theorem AccessesInside.not_beyond (h : AccessesInside bs) (hst : BootSector.ofBytes st.disk = bs)
    (hmount : fat32Mount goodDevice st none = (0, some root, st')) {calls : List (ℕ × NodeOp)}
    {s : Session} (hrun : Run (nodeStep goodDevice) ⟨st', [root]⟩ calls s) {page : UInt64}
    {accesses : List Access} (hseen : st'.accesses ++ accesses <+: s.vol.accesses) :
    ⟨page, 4096, 4⟩ ∉ accesses := by
  intro hmem
  obtain ⟨rest, hrest⟩ := hseen
  have hafter : ⟨page, 4096, 4⟩ ∈ s.vol.accesses.drop st'.accesses.length := by
    rw [← hrest, List.append_assoc, List.drop_left]
    exact List.mem_append_left _ hmem
  have hinside : 4096 + 4 ≤ 4096 := h goodDevice st st' none root hst hmount calls s hrun _ hafter
  omega

/-- A sector of the disk is the record. -/
theorem repeated_record (sector k : ℕ) (hk : k < 32) :
    repeated bs (sector * 512 + k) = sectorByte bs k := by
  have hmod : (sector * 512 + k) % 512 = k := by omega
  rw [repeated, hmod]

theorem not_accessesInside (hbs : bs.valid = true) (h : ¬ NoClusters bs) : ¬ AccessesInside bs := by
  intro hinside
  have hst : BootSector.ofBytes (unmounted (repeated bs)).disk = bs := ofBytes_repeated bs
  obtain ⟨root, st, hmount, hpfa, hfree⟩ := fat32Mount_repeated hbs
  obtain ⟨node, hnode, hfrom⟩ := fat32Mount_ok hmount
  obtain rfl := Option.some.inj hnode
  have hmounted := hfrom.mounted
  have hfs := hfrom.fs
  rw [hst] at hfs
  have hdata : root.data = some ⟨bs.rootCluster, 0⟩ := by
    rw [hfrom.root.1, hfs]
    rfl
  have htotal : st.fs.bs.totalClusters = bs.totalClusters := by
    rw [hfs]
    rfl
  by_cases hroot : bs.rootCluster < endOfChain
  · have hroom : ThreeFree st.pfa := by
      rw [hpfa]
      unfold ThreeFree
      decide +kernel
    have hdisk : ∀ k < 32, st.disk (clusterStart st.fs bs.rootCluster + k) = sectorByte bs k := by
      intro k hk
      rw [hfrom.disk]
      exact repeated_record _ k hk
    obtain ⟨calls, s, hrun, accesses, hseen, hmem⟩ :=
      reads_outside hbs hmounted hroom hdata hroot hdisk
    exact hinside.not_beyond hst hmount hrun hseen hmem
  · have hend : endOfChain ≤ bs.rootCluster := UInt32.not_lt.mp hroot
    have hlt : 2 < st.fs.bs.totalClusters := by
      rw [htotal]
      exact UInt32.not_le.mp fun hle => h ⟨hend, hle⟩
    -- the directory gets a cluster that begins with the record
    obtain ⟨r, node, t, hwrite, hdata', hfs', hpfa', haccesses, hdisk⟩ :=
      fat32Write_first hmounted hlt hfree hdata hend (sectorByte bs)
    have hroom : ThreeFree t.pfa := by
      rw [hpfa', hpfa]
      unfold ThreeFree
      decide +kernel
    have hmounted' : Mounted t.fs := by rwa [hfs']
    have htwo : (2 : UInt32) < endOfChain := by decide
    obtain ⟨calls, s, hrun, accesses, hseen, hmem⟩ :=
      reads_outside hbs hmounted' hroom hdata' htwo hdisk
    have hstep : nodeStep goodDevice ⟨st, [root]⟩ (0, .write 0 32 (sectorByte bs)) ⟨t, [node]⟩ := by
      refine ⟨root, 0, rfl, ?_⟩
      rw [nodeCall, hwrite]
      rfl
    obtain ⟨before, hbefore⟩ := haccesses
    rw [← hbefore, List.append_assoc] at hseen
    exact hinside.not_beyond hst hmount (.cons hstep hrun) hseen (List.mem_append_right _ hmem)

end

/-- The accesses stay within pages, on all disks with this boot sector, exactly if there is no
cluster that could be read. -/
theorem accesses_inside_iff {bs : BootSector} (hbs : bs.valid = true) :
    AccessesInside bs ↔ NoClusters bs := by
  constructor
  · intro h
    by_contra hnone
    exact not_accessesInside hbs hnone h
  · rintro ⟨hend, hfull⟩ dev st st' device root rfl hmount calls s hrun a ha
    obtain ⟨node, hnode, hfrom⟩ := fat32Mount_ok hmount
    obtain rfl := Option.some.inj hnode
    have hfull' : st'.fs.bs.totalClusters ≤ 2 := by
      rw [hfrom.fs]
      exact hfull
    have hinit : Unentered st' ⟨st', [root]⟩ := by
      refine ⟨rfl, rfl, fun node hnode => ?_⟩
      obtain rfl := List.mem_singleton.mp hnode
      refine ⟨fat32Mount_size hmount, _, hfrom.root.1, ?_⟩
      rw [hfrom.fs]
      exact hend
    have hrun' : Unentered st' s :=
      Run.invariant (P := Unentered st') (fun _ _ _ h hs => h.step hfull' hs) hrun hinit
    rw [hrun'.accesses, List.drop_length] at ha
    cases ha

/-- A volume of one sector, which has no clusters. -/
def emptyBoot : BootSector :=
  { bytesPerSector := 512
    sectorsPerCluster := 1
    reservedSectors := 1
    numFats := 0
    totalSectors32 := 1
    fatSize32 := 0
    rootCluster := endOfChain
    volumeId := 0 }

theorem accesses_inside_emptyBoot : AccessesInside emptyBoot :=
  (accesses_inside_iff (by decide)).mpr ⟨by decide, by decide⟩

/-- A volume of 64 sectors, whose FAT fits into the cache. -/
theorem accesses_outside_small : (BootSector.ofBytes (smallDisk 1)).valid = true ∧
    ¬ AccessesInside (BootSector.ofBytes (smallDisk 1)) := by
  have hvalid : (BootSector.ofBytes (smallDisk 1)).valid = true := by decide +kernel
  have hroot : ¬ endOfChain ≤ (BootSector.ofBytes (smallDisk 1)).rootCluster := by decide +kernel
  exact ⟨hvalid, not_accessesInside hvalid fun h => hroot h.1⟩

end Rhoudveine.Fat32
