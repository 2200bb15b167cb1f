import Rhoudveine.Fat32.Growth
import Rhoudveine.Fat32.Listing

/-!
# Parent links

`fat32_mkdir_op` gives a new directory a record `..`, in which a root directory is cluster 0.
`fat32_finddir` makes a node of it as of every other record.
-/

namespace Rhoudveine.Fat32
open Fs Mm LittleEndian Search

/-! ## The clusters of a volume -/

/-- A cluster of those that `fat32_alloc_cluster` searches. -/
def OnVolume (fs : Fat32Fs) (c : UInt32) : Prop := 2 ≤ c ∧ c < fs.bs.totalClusters

theorem totalClusters_mul_le (fs : Fat32Fs) :
    fs.bs.totalClusters.toNat * fs.bs.sectorsPerCluster.toNat ≤ fs.bs.totalSectors32.toNat := by
  rw [BootSector.totalClusters, UInt32.toNat_div, UInt8.toNat_toUInt32]
  exact Nat.div_mul_le_self _ _

namespace OnVolume

variable {fs : Fat32Fs} {c d : UInt32}

/-- The offset of a cluster from the data area, and that of the next one. -/
theorem offset (hc : OnVolume fs c) : ((c - 2) * fs.bs.sectorsPerCluster.toUInt32).toNat =
      (c.toNat - 2) * fs.bs.sectorsPerCluster.toNat ∧
    (c.toNat - 2) * fs.bs.sectorsPerCluster.toNat + fs.bs.sectorsPerCluster.toNat ≤
      fs.bs.totalSectors32.toNat := by
  have htotal := fs.bs.totalSectors32.toNat_lt
  have hlt : c.toNat - 2 + 1 ≤ fs.bs.totalClusters.toNat := by
    have hhigh := UInt32.lt_iff_toNat_lt.mp hc.2
    omega
  have hmul := Nat.mul_le_mul_right fs.bs.sectorsPerCluster.toNat hlt
  rw [Nat.add_mul, Nat.one_mul] at hmul
  have hnext := hmul.trans (totalClusters_mul_le fs)
  have htwo : (c - 2).toNat = c.toNat - 2 := UInt32.toNat_sub_of_le _ _ hc.1
  refine ⟨?_, hnext⟩
  rw [UInt32.toNat_mul, htwo, UInt8.toNat_toUInt32]
  exact Nat.mod_eq_of_lt ((Nat.le_of_add_right_le hnext).trans_lt htotal)

theorem clusterStart_eq (hc : OnVolume fs c) : clusterStart fs c =
    (fs.dataStartSector.toNat + (c.toNat - 2) * fs.bs.sectorsPerCluster.toNat) % 2 ^ 32 * 512 := by
  rw [clusterStart, fat32ClusterToSector, UInt32.toNat_add, hc.offset.1]

theorem offset_le (hc : OnVolume fs c) (hlt : c < d) :
    (c.toNat - 2) * fs.bs.sectorsPerCluster.toNat + fs.bs.sectorsPerCluster.toNat ≤
      (d.toNat - 2) * fs.bs.sectorsPerCluster.toNat := by
  have hsucc : c.toNat - 2 + 1 ≤ d.toNat - 2 := by
    have hlow : 2 ≤ c.toNat := UInt32.le_iff_toNat_le.mp hc.1
    have hlt' := UInt32.lt_iff_toNat_lt.mp hlt
    omega
  have hmul := Nat.mul_le_mul_right fs.bs.sectorsPerCluster.toNat hsucc
  rwa [Nat.add_mul, Nat.one_mul] at hmul

end OnVolume

/-- Two clusters have no byte in common, even where their sectors are computed with a carry. -/
theorem clusterStart_ne {fs : Fat32Fs} (h : Mounted fs) {c d : UInt32} (hc : OnVolume fs c)
    (hd : OnVolume fs d) (hne : c ≠ d) {i j : ℕ} (hi : i < 512 * fs.bs.sectorsPerCluster.toNat)
    (hj : j < 512 * fs.bs.sectorsPerCluster.toNat) :
    clusterStart fs c + i ≠ clusterStart fs d + j := by
  have hpos := h.sectors_pos
  have htotal := fs.bs.totalSectors32.toNat_lt
  have hdata := fs.dataStartSector.toNat_lt
  have hbound := hc.offset.2
  have hbound' := hd.offset.2
  rw [hc.clusterStart_eq, hd.clusterStart_eq]
  rcases UInt32.lt_or_lt_of_ne hne with hlt | hlt
  · have hapart := hc.offset_le hlt
    omega
  · have hapart := hd.offset_le hlt
    omega

/-- The clusters that a walk from `c` along the links meets. -/
def Reaches (st : Volume) (c x : UInt32) : Prop :=
  Relation.ReflTransGen (fun a b => successor st a = some b) c x

/-- The clusters of a directory are clusters of the volume and in use. -/
def InUse (st : Volume) (c : UInt32) : Prop :=
  ∀ x, Reaches st c x → OnVolume st.fs x ∧ fatLink st x ≠ 0

theorem InUse.next {st : Volume} {c d : UInt32} (h : InUse st c) (hd : successor st c = some d) :
    InUse st d := fun x hx => h x (.head hd hx)

theorem SameVolume.successor {st st' : Volume} (h : SameVolume st st') (c : UInt32) :
    successor st' c = successor st c := successor_congr (h.fatLink c)

theorem SameVolume.reaches {st st' : Volume} (h : SameVolume st st') {c x : UInt32} :
    Reaches st' c x ↔ Reaches st c x := by
  unfold Reaches
  simp only [h.successor]

theorem SameVolume.inUse {st st' : Volume} (h : SameVolume st st') {c : UInt32}
    (hc : InUse st c) : InUse st' c := by
  intro x hx
  rw [h.reaches] at hx
  rw [h.fs, h.fatLink]
  exact hc x hx

/-! ## Taking a cluster -/

variable {dev : Device} {st st' : Volume} {c d target : UInt32}

/-- A free cluster of the volume has been marked. -/
structure Marked (st st' : Volume) (r : UInt32) : Prop where
  fs : st'.fs = st.fs
  onVolume : OnVolume st.fs r
  free : fatLink st r = 0
  fatCache : st'.fatCache = setWord st.fatCache r.toNat 0x0FFFFFFF

theorem Marked.fatLink_ne_zero (h : Marked st st' d) : fatLink st' d ≠ 0 := by
  rw [fatLink_setWord h.fatCache, if_pos rfl]
  decide

theorem fat32AllocCluster_marked (h : fat32AllocCluster dev st = (d, st')) (hd : d ≠ 0) :
    Marked st st' d := by
  have hr : (fat32AllocCluster dev st).1 ≠ 0 := by rwa [h]
  obtain ⟨r, hfree, hfirst, hflush, hcache, -⟩ := fat32AllocCluster_ok hr
  rw [h] at hfirst hflush hcache
  obtain rfl : d = r := hfirst
  obtain ⟨hlow, hhigh, hzero, -⟩ := firstFree_eq_some hfree
  exact ⟨hflush.fs, ⟨UInt32.le_iff_toNat_le.mpr hlow, UInt32.lt_iff_toNat_lt.mpr hhigh⟩, hzero,
    hcache⟩

/-- A cluster that was linked behind one in use is in use itself. -/
theorem fat32ExtendChain_marked {last : UInt32} (hcached : st.fs.fatCacheValid = true)
    (hlast : fatLink st last ≠ 0) (h : fat32ExtendChain dev st last = (d, st')) (hd : d ≠ 0) :
    st'.fs = st.fs ∧ OnVolume st.fs d ∧ fatLink st d = 0 ∧ fatLink st' d ≠ 0 := by
  unfold fat32ExtendChain at h
  generalize hout : fat32AllocCluster dev st = out at h
  obtain ⟨r, t⟩ := out
  dsimp only at h
  split at h
  · obtain ⟨rfl, -⟩ := Prod.mk.inj h
    exact absurd rfl hd
  · obtain ⟨rfl, rfl⟩ := Prod.mk.inj h
    have hmarked := fat32AllocCluster_marked hout hd
    have hcached' : t.fs.fatCacheValid = true := by
      rw [hmarked.fs]
      exact hcached
    have hne : r ≠ last := by
      rintro rfl
      exact hlast hmarked.free
    have hset := @fat32SetFatEntry_valid t hcached' last r
    refine ⟨?_, hmarked.onVolume, hmarked.free, ?_⟩
    · rw [hset]
      exact hmarked.fs
    · have hcache : (writeFat dev (fat32SetFatEntry t last r)).2.fatCache =
          setWord t.fatCache last.toNat r := by
        rw [hset]
        rfl
      rw [fatLink_setWord hcache, if_neg hne]
      exact hmarked.fatLink_ne_zero

/-! ## The place for the record -/

theorem freeRun_le {buf : ℕ → UInt8} {needed rounds j n : ℕ} (hn : n < needed)
    (h : freeRun buf needed rounds j n = true) : needed ≤ n + rounds := by
  induction rounds generalizing j n with
  | zero => cases h
  | succ rounds ih =>
    rw [freeRun] at h
    split at h
    · split at h
      · omega
      · have hrest := ih (by omega) h
        omega
    · cases h

/-- The free entries lie in the cluster. -/
theorem findSlots_le {buf : ℕ → UInt8} {entries needed i : ℕ} (hneeded : 0 < needed)
    (h : findSlots buf entries needed = some i) : i + needed ≤ entries := by
  obtain ⟨j, -, hlt, hentry, -⟩ := firstSome_eq_some.mp h
  split at hentry
  · rename_i hfree
    obtain rfl := Option.some.inj hentry
    have hle := freeRun_le hneeded (Bool.and_eq_true_iff.mp hfree).2
    omega
  · cases hentry

/-- The place is in a cluster of the directory, or in one that was added to it. -/
structure Placed (st st' : Volume) (c target : UInt32) (needed start : ℕ) : Prop where
  fs : st'.fs = st.fs
  onVolume : OnVolume st.fs target
  used : fatLink st' target ≠ 0
  origin : Reaches st c target ∨ fatLink st target = 0
  room : needed ≤ st.fs.bs.entriesPerCluster.toNat →
    start + needed ≤ st.fs.bs.entriesPerCluster.toNat

theorem findTarget_placed {page : UInt64} {needed fuel start : ℕ} {buf buf' : ℕ → UInt8}
    (hneeded : 0 < needed) (hcached : st.fs.fatCacheValid = true) (hc : InUse st c)
    (h : findTarget dev page needed fuel c buf st = some (some (target, start, buf'), st')) :
    Placed st st' c target needed start := by
  induction fuel generalizing c buf st with
  | zero => cases h
  | succ fuel ih =>
    have hread : SameVolume st (fat32ReadCluster dev st c page buf).2.2 := ⟨rfl, rfl, rfl⟩
    obtain ⟨honvolume, hused⟩ := hc c .refl
    unfold findTarget at h
    split at h
    · cases h
    · generalize fat32ReadCluster dev st c page buf = out at h hread
      obtain ⟨ok, buf₁, t⟩ := out
      cases ok with
      | false => cases h
      | true =>
        dsimp only at h hread
        split at h
        · rename_i hslots
          obtain ⟨hfound, rfl⟩ := Prod.mk.inj (Option.some.inj h)
          obtain ⟨rfl, hrest⟩ := Prod.mk.inj (Option.some.inj hfound)
          obtain ⟨rfl, -⟩ := Prod.mk.inj hrest
          rw [hread.fs] at hslots
          refine ⟨hread.fs, honvolume, ?_, Or.inl .refl, fun _ => findSlots_le hneeded hslots⟩
          rwa [hread.fatLink]
        · have hcached' : t.fs.fatCacheValid = true := by rwa [hread.fs]
          obtain ⟨hnext, hget⟩ := @fat32GetFatEntry_cached t hcached' c
          generalize fat32GetFatEntry t c = out at h hnext hget
          obtain ⟨next, u⟩ := out
          have hboth := hread.trans hget
          rw [hread.fatLink] at hnext
          obtain rfl : next = fatLink st c := hnext
          dsimp only at h hboth
          split at h
          · -- the chain ends here
            generalize hextend : fat32ExtendChain dev u c = out at h
            obtain ⟨new, v⟩ := out
            dsimp only at h
            split at h
            · cases h
            · rename_i hnew
              obtain ⟨hfound, rfl⟩ := Prod.mk.inj (Option.some.inj h)
              obtain ⟨rfl, hrest⟩ := Prod.mk.inj (Option.some.inj hfound)
              obtain ⟨rfl, -⟩ := Prod.mk.inj hrest
              have hlast : fatLink u c ≠ 0 := by rwa [hboth.fatLink]
              obtain ⟨hfs, hvolume, hfree, hmark⟩ :=
                fat32ExtendChain_marked (by rwa [hboth.fs]) hlast hextend hnew
              rw [hboth.fs] at hvolume hfs
              rw [hboth.fatLink] at hfree
              exact ⟨hfs, hvolume, hmark, Or.inr hfree, fun hle => by omega⟩
          · rename_i hlt
            have hsucc : successor st c = some (fatLink st c) := if_neg hlt
            have hplaced := ih (by rwa [hboth.fs]) (hboth.inUse (hc.next hsucc)) h
            have hfs := hboth.fs
            refine ⟨hplaced.fs.trans hfs, hfs ▸ hplaced.onVolume, hplaced.used, ?_,
              hfs ▸ hplaced.room⟩
            rcases hplaced.origin with hreach | hfree
            · exact Or.inl (.head hsucc (hboth.reaches.mp hreach))
            · exact Or.inr ((hboth.fatLink target).symm.trans hfree)

/-! ## The two first records -/

/-- What the record `..` holds for a directory that starts at `p`. -/
def parentCluster (fs : Fat32Fs) (p : UInt32) : UInt32 := if p = fs.rootDirCluster then 0 else p

def dotRecord (first : UInt32) : Record := shortRecord (padded 11 [dot]) attrDirectory first

def dotDotRecord (parent : UInt32) : Record :=
  shortRecord (padded 11 [dot, dot]) attrDirectory parent

/-- Cluster `d` on the disk begins with the records `.` and `..`. -/
structure Dots (st : Volume) (d parent : UInt32) : Prop where
  dot : Record.Same (recordAt (fun k => st.disk (clusterStart st.fs d + k)) 0) (dotRecord d)
  dotDot : Record.Same (recordAt (fun k => st.disk (clusterStart st.fs d + k)) 1)
    (dotDotRecord parent)

theorem recordAt_setRecord (buf : ℕ → UInt8) (i : ℕ) (r : Record) :
    (recordAt (setRecord buf i r) i).Same r := by
  intro k hk
  have hin : 32 * i ≤ 32 * i + k ∧ 32 * i + k < 32 * i + 32 := by omega
  rw [recordAt, setRecord, if_pos hin, Nat.add_sub_cancel_left]

theorem recordAt_setRecord_of_ne (buf : ℕ → UInt8) {i j : ℕ} (r : Record) (h : i ≠ j) :
    (recordAt (setRecord buf i r) j).Same (recordAt buf j) := by
  intro k hk
  have hout : ¬ (32 * i ≤ 32 * j + k ∧ 32 * j + k < 32 * i + 32) := by omega
  rw [recordAt, setRecord, if_neg hout]
  rfl

theorem Record.Same.trans {r r' r'' : Record} (h : r.Same r') (h' : r'.Same r'') : r.Same r'' :=
  fun k hk => (h k hk).trans (h' k hk)

/-- The disk has the records of a buffer that was written to a cluster. -/
theorem recordAt_written {fs : Fat32Fs} {disk disk' buf : ℕ → UInt8}
    (hdisk : ∀ a, disk' a =
      if clusterStart fs c ≤ a ∧ a < clusterStart fs c + 512 * fs.bs.sectorsPerCluster.toNat then
        buf (a - clusterStart fs c)
      else disk a) {i : ℕ} (hi : i < 16 * fs.bs.sectorsPerCluster.toNat) :
    (recordAt (fun k => disk' (clusterStart fs c + k)) i).Same (recordAt buf i) := by
  intro k hk
  have hin : clusterStart fs c ≤ clusterStart fs c + (32 * i + k) ∧
      clusterStart fs c + (32 * i + k) <
        clusterStart fs c + 512 * fs.bs.sectorsPerCluster.toNat := by omega
  rw [recordAt, hdisk, if_pos hin, Nat.add_sub_cancel_left]
  rfl

/-- A new directory has its two records and is marked in the FAT. -/
theorem makeDirectory_dots (hok : ∀ n, dev.ok n = true) (hmounted : Mounted st.fs) {dir : NodeData}
    (h : makeDirectory dev st dir = (d, st')) (hd : d ≠ 0) :
    st'.fs = st.fs ∧ OnVolume st.fs d ∧ fatLink st d = 0 ∧
      Dots st' d (parentCluster st.fs dir.firstCluster) := by
  unfold makeDirectory at h
  generalize hout : fat32AllocCluster dev st = out at h
  obtain ⟨first, t⟩ := out
  dsimp only at h
  split at h
  · obtain ⟨rfl, -⟩ := Prod.mk.inj h
    exact absurd rfl hd
  · rename_i hfirst
    have hmarked := fat32AllocCluster_marked hout hfirst
    have hparent : (if dir.firstCluster = t.alloc.2.fs.rootDirCluster then 0
        else dir.firstCluster) = parentCluster st.fs dir.firstCluster := by
      have hfs : t.alloc.2.fs = st.fs := hmarked.fs
      rw [parentCluster, ← hfs]
    rw [hparent] at h
    dsimp only [Volume.alloc] at h
    obtain ⟨u, hwrite, hfs, -, hdisk⟩ :=
      @fat32WriteCluster_ok dev (Volume.touch { t with pfa := (pfaAlloc t.pfa).2 }
          (pfaAlloc t.pfa).1 0 4096) hok first (pfaAlloc t.pfa).1
        (setRecord (setRecord (fun i => if i < 4096 then 0 else dev.leftover (pfaAlloc t.pfa).1 i) 0
          (dotRecord first)) 1 (dotDotRecord (parentCluster st.fs dir.firstCluster)))
    unfold dotRecord dotDotRecord at hwrite
    rw [hwrite] at h
    obtain ⟨rfl, rfl⟩ := Prod.mk.inj h
    have hfs' : u.fs = st.fs := hfs.trans hmarked.fs
    have hpos : 0 < t.fs.bs.sectorsPerCluster.toNat := by
      rw [hmarked.fs]
      exact hmounted.sectors_pos
    have hsame : (u.free (pfaAlloc t.pfa).1).fs = t.fs := hfs
    refine ⟨hfs', hmarked.onVolume, hmarked.free, ?_, ?_⟩
    · rw [hsame]
      refine (recordAt_written hdisk (show 0 < 16 * t.fs.bs.sectorsPerCluster.toNat by omega)).trans
        ((recordAt_setRecord_of_ne _ _ one_ne_zero).trans (recordAt_setRecord _ _ _))
    · rw [hsame]
      exact (recordAt_written hdisk (show 1 < 16 * t.fs.bs.sectorsPerCluster.toNat by omega)).trans
        (recordAt_setRecord _ _ _)

/-! ## The record of the directory -/

/-- The records from entry `i` on, and no other, are replaced. -/
theorem writeRecords_same {page : UInt64} {rs : List Record} {i : ℕ} {buf buf' : ℕ → UInt8}
    (h : writeRecords page rs i buf st = (buf', st')) :
    SameVolume st st' ∧ (∀ j < i, (recordAt buf' j).Same (recordAt buf j)) ∧
      ∀ j r, rs[j]? = some r → (recordAt buf' (i + j)).Same r := by
  induction rs generalizing i buf st with
  | nil =>
    obtain ⟨rfl, rfl⟩ := Prod.mk.inj h
    exact ⟨SameVolume.refl st, fun j _ k _ => rfl, fun j r hr => by cases hr⟩
  | cons x rs ih =>
    obtain ⟨hsame, hbelow, hat⟩ := ih h
    refine ⟨⟨hsame.fs, hsame.fatCache, hsame.disk⟩, fun j hj => ?_, fun j r hr => ?_⟩
    · exact (hbelow j (by omega)).trans (recordAt_setRecord_of_ne _ _ (Nat.ne_of_gt hj))
    · cases j with
      | zero =>
        obtain rfl : x = r := Option.some.inj hr
        exact (hbelow i (Nat.lt_succ_self i)).trans (recordAt_setRecord _ _ _)
      | succ j =>
        have hnext := hat j r hr
        rwa [Nat.add_assoc, Nat.add_comm 1 j] at hnext

theorem entryRecords_last (name : Str) (attr : UInt8) (first : UInt32) :
    (entryRecords name attr first)[lfnEntries name]? =
      some (shortRecord (shortName name) attr first) := by
  unfold entryRecords
  rw [List.getElem?_append_right (by simp), List.length_map, List.length_range, Nat.sub_self]
  rfl

/-! ## Making a directory -/

/-- Later on, the two first records of cluster `d` are the same. -/
structure KeepsDots (st st' : Volume) (d : UInt32) : Prop where
  fs : st'.fs = st.fs
  disk : ∀ k < 64, st'.disk (clusterStart st.fs d + k) = st.disk (clusterStart st.fs d + k)

theorem Dots.keep {parent : UInt32} (h : Dots st d parent) (hkeep : KeepsDots st st' d) :
    Dots st' d parent := by
  have hrecord (i : ℕ) (hi : i < 2) :
      (recordAt (fun k => st'.disk (clusterStart st'.fs d + k)) i).Same
        (recordAt (fun k => st.disk (clusterStart st.fs d + k)) i) := by
    intro k hk
    rw [hkeep.fs]
    exact hkeep.disk (32 * i + k) (by omega)
  exact ⟨(hrecord 0 (by norm_num)).trans h.dot, (hrecord 1 (by norm_num)).trans h.dotDot⟩

/-- The directory `d` has been made in the directory that starts at `c`: it names itself, and the
directory or a cluster added to it has its record, if a cluster has room for the records of the
name. -/
structure MadeIn (st st' : Volume) (c : UInt32) (name : Str) (d : UInt32) : Prop where
  fs : st'.fs = st.fs
  onVolume : OnVolume st.fs d
  dot : Record.Same (recordAt (fun k => st'.disk (clusterStart st'.fs d + k)) 0) (dotRecord d)
  entered : 1 + lfnEntries name ≤ st.fs.bs.entriesPerCluster.toNat →
    ∃ target, (Reaches st c target ∨ fatLink st target = 0) ∧
      ∃ r ∈ clusterRecords st' target, r.Same (shortRecord (shortName name) attrDirectory d)

theorem fillEntry_directory (hok : ∀ n, dev.ok n = true) (hmounted : Mounted st.fs)
    (htarget : OnVolume st.fs target) (hused : fatLink st target ≠ 0) {dir : NodeData} {name : Str}
    {page : UInt64} {start : ℕ} {buf : ℕ → UInt8}
    (h : fillEntry dev st dir name attrDirectory page target start buf = (0, st')) :
    ∃ d, OnVolume st.fs d ∧ st'.fs = st.fs ∧ Dots st' d (parentCluster st.fs dir.firstCluster) ∧
      (start + (1 + lfnEntries name) ≤ st.fs.bs.entriesPerCluster.toNat →
        (recordAt (fun k => st'.disk (clusterStart st.fs target + k))
          (start + lfnEntries name)).Same (shortRecord (shortName name) attrDirectory d)) := by
  have hattr : attrDirectory &&& attrDirectory ≠ 0 := by decide
  unfold fillEntry at h
  rw [if_pos hattr] at h
  generalize hmake : makeDirectory dev st dir = out at h
  obtain ⟨d, t⟩ := out
  dsimp only at h
  split at h
  · cases h
  · rename_i hd
    have hd : d ≠ 0 := fun hzero => hd ⟨hattr, hzero⟩
    obtain ⟨hfs, hvolume, hfree, hdots⟩ := makeDirectory_dots hok hmounted hmake hd
    obtain ⟨buf', u, hread, hsame, -, -⟩ := @fat32ReadCluster_ok dev t hok target page buf
    rw [hread] at h
    dsimp only at h
    generalize hrecords : writeRecords page (entryRecords name attrDirectory d) start buf' u = out
      at h
    obtain ⟨buf'', v⟩ := out
    dsimp only at h
    obtain ⟨hsame', -, hat⟩ := writeRecords_same hrecords
    have hboth := hsame.trans hsame'
    obtain ⟨w, hwrite, hfs', -, hdisk⟩ := @fat32WriteCluster_ok dev v hok target page buf''
    rw [hwrite] at h
    obtain ⟨-, rfl⟩ := Prod.mk.inj h
    have hfs₁ : v.fs = st.fs := hboth.fs.trans hfs
    rw [hfs₁] at hdisk
    have hne : d ≠ target := by
      rintro rfl
      exact hused hfree
    have hpos := hmounted.sectors_pos
    refine ⟨d, hvolume, hfs'.trans hfs₁, ?_, fun hroom => ?_⟩
    · -- the other cluster is written after this one
      apply hdots.keep
      refine ⟨hfs'.trans (hfs₁.trans hfs.symm), fun k hk => ?_⟩
      have hout : ¬ (clusterStart st.fs target ≤ clusterStart t.fs d + k ∧ clusterStart t.fs d + k <
          clusterStart st.fs target + 512 * st.fs.bs.sectorsPerCluster.toNat) := by
        rw [hfs]
        rintro ⟨hlow, hhigh⟩
        obtain ⟨i, hi⟩ := Nat.exists_eq_add_of_le hlow
        exact clusterStart_ne hmounted hvolume htarget hne (show k < _ by omega)
          (show i < _ by omega) hi
      exact (hdisk _).trans ((if_neg hout).trans (congrFun hboth.disk _))
    · rw [hmounted.toNat_entriesPerCluster] at hroom
      exact (recordAt_written hdisk (by omega)).trans (hat _ _ (entryRecords_last _ _ _))

theorem fat32MkdirOp_made (hok : ∀ n, dev.ok n = true) (hmounted : Mounted st.fs) {fuel : ℕ}
    {parent : Node} {dir : NodeData} {name : Str} (hdata : parent.data = some dir)
    (hdir : InUse st dir.firstCluster)
    (h : fat32MkdirOp dev fuel st parent name = some (0, st')) :
    ∃ d, MadeIn st st' dir.firstCluster name d ∧
      Dots st' d (parentCluster st.fs dir.firstCluster) := by
  unfold fat32MkdirOp fat32Create at h
  split at h
  · cases h
  · split at h
    · cases h
    · cases h
    · rename_i t hfind
      have hsame := fat32Scan_same hfind
      unfold fat32CreateEntry at h
      rw [hdata] at h
      dsimp only [Volume.alloc] at h
      split at h
      · cases h
      · split at h
        · cases h
        · cases h
        · rename_i target start buf u htarget
          obtain ⟨v, hv⟩ : ∃ v : Volume, v = { t with pfa := (pfaAlloc t.pfa).2 } := ⟨_, rfl⟩
          rw [← hv] at htarget
          have hsame' : SameVolume st v := by
            rw [hv]
            exact ⟨hsame.fs, hsame.fatCache, hsame.disk⟩
          have hcached : v.fs.fatCacheValid = true := by
            rw [hsame'.fs]
            exact hmounted.cached
          have hplaced := findTarget_placed (Nat.add_pos_left one_pos _) hcached
            (hsame'.inUse hdir) htarget
          have hfs : u.fs = st.fs := hplaced.fs.trans hsame'.fs
          have hmounted' : Mounted u.fs := by rwa [hfs]
          have hvolume : OnVolume u.fs target := hplaced.fs ▸ hplaced.onVolume
          obtain ⟨d, hd, hfs', hdots, hrecord⟩ :=
            fillEntry_directory hok hmounted' hvolume hplaced.used (Option.some.inj h)
          rw [hfs] at hd hfs' hdots hrecord
          refine ⟨d, ⟨hfs', hd, hdots.dot, fun hroom => ⟨target, ?_, ?_⟩⟩, hdots⟩
          · rw [← hsame'.reaches, ← hsame'.fatLink]
            exact hplaced.origin
          · have hfit := hplaced.room
            rw [hsame'.fs] at hfit
            have hfit := hfit hroom
            refine ⟨_, List.mem_map.mpr ⟨start + lfnEntries name, ?_, rfl⟩, ?_⟩
            · rw [List.mem_range, hfs']
              omega
            · rw [hfs']
              exact hrecord hfit

/-! ## Looking `..` up -/

theorem firstCluster_shortRecord (name : Str) (attr : UInt8) (first : UInt32) :
    (shortRecord name attr first).firstCluster = first := by
  have hlt := first.toNat_lt
  have hhigh : le (shortRecord name attr first) 20 2 = first.toNat / 65536 % 65536 := by
    apply le_leByte
    intro k hk
    have hbyte : shortRecord name attr first (20 + k) = leByte first.toNat (k + 2) := by
      interval_cases k <;> rfl
    rw [hbyte, leByte, leByte, Nat.div_div_eq_div_mul, pow_add, Nat.mul_comm]
    rfl
  have hlow : le (shortRecord name attr first) 26 2 = first.toNat % 65536 := by
    apply le_leByte
    intro k hk
    interval_cases k <;> rfl
  have hshift {v : ℕ} (hv : v < 65536) : (UInt32.ofNat v <<< 16).toNat = v * 2 ^ 16 := by
    have h16 : (16 : UInt32).toNat % 32 = 16 := rfl
    have hword : v % 2 ^ 32 = v := Nat.mod_eq_of_lt (by omega)
    have hfit : v * 2 ^ 16 % 2 ^ 32 = v * 2 ^ 16 := Nat.mod_eq_of_lt (by omega)
    rw [UInt32.toNat_shiftLeft, UInt32.toNat_ofNat', h16, Nat.shiftLeft_eq, hword, hfit]
  have hpart : first.toNat % 65536 % 2 ^ 32 = first.toNat % 65536 := Nat.mod_eq_of_lt (by omega)
  have hsum := Nat.shiftLeft_add_eq_or_of_lt (show first.toNat % 65536 < 2 ^ 16 by omega)
    (first.toNat / 65536 % 65536)
  rw [Nat.shiftLeft_eq] at hsum
  apply UInt32.toNat_inj.mp
  rw [Record.firstCluster, hhigh, hlow, UInt32.toNat_or, hshift (Nat.mod_lt _ (by norm_num)),
    UInt32.toNat_ofNat', hpart, ← hsum]
  omega

/-- The scan passes over `.` and ends at `..`. -/
theorem scanEntries_dotDot {buf : ℕ → UInt8} {parent : UInt32}
    (hdot : (recordAt buf 0).Same (dotRecord d))
    (hdotDot : (recordAt buf 1).Same (dotDotRecord parent)) (n : ℕ) :
    scanEntries (fun _ => nameMatches (str "..")) buf (n + 2) 0 0 .clear =
      .hit (recordAt buf 1) .clear := by
  have hpass : nameMatches (str "..") .clear (recordAt buf 0) = false := by
    rw [hdot.nameMatches]
    rfl
  have hmatch : nameMatches (str "..") .clear (recordAt buf 1) = true := by
    rw [hdotDot.nameMatches]
    rfl
  have hfirst : recordAt buf 0 0 = dot := hdot 0 (by norm_num)
  have hsecond : recordAt buf 1 0 = dot := hdotDot 0 (by norm_num)
  have hattr : (recordAt buf 0).attr = attrDirectory := hdot.attr
  have hattr' : (recordAt buf 1).attr = attrDirectory := hdotDot.attr
  simp only [scanEntries, hfirst, hsecond, hattr, hattr', hpass, hmatch]
  rfl

/-- What `fat32_finddir` makes of the record. -/
theorem fat32Finddir_dotDot (hok : ∀ n, dev.ok n = true) (hmounted : Mounted st.fs)
    {parent q : UInt32} (hdots : Dots st d parent) (hlt : d < endOfChain) {node : Node}
    (hdata : node.data = some ⟨d, q⟩) (fuel : ℕ) :
    ∃ found st', fat32Finddir dev (fuel + 1) st node (str "..") = some (found, st') ∧
      (ThreeFree st.pfa → ∃ up, found = some up ∧ up.data = some ⟨parent, d⟩) ∧
      (¬ ThreeFree st.pfa → ∀ up, found = some up → up.data = none) := by
  unfold fat32Finddir fat32Scan
  rw [hdata]
  dsimp only [Volume.alloc]
  by_cases hpage : (pfaAlloc st.pfa).1 = 0
  · rw [if_pos hpage]
    refine ⟨none, _, rfl, fun h => absurd hpage h.1, fun _ up hup => ?_⟩
    cases hup
  · rw [if_neg hpage]
    obtain ⟨buf, t, hread, hsame, hpfa, hbuf⟩ :=
      @fat32ReadCluster_ok dev { st with pfa := (pfaAlloc st.pfa).2 } hok d (pfaAlloc st.pfa).1
        (dev.leftover (pfaAlloc st.pfa).1)
    have hpos := hmounted.sectors_pos
    have hrecord (i : ℕ) (hi : i < 2) : (recordAt buf i).Same
        (recordAt (fun k => st.disk (clusterStart st.fs d + k)) i) :=
      fun k hk => hbuf (32 * i + k) (show _ < 512 * st.fs.bs.sectorsPerCluster.toNat by omega)
    have hdot := (hrecord 0 (by norm_num)).trans hdots.dot
    have hdotDot := (hrecord 1 (by norm_num)).trans hdots.dotDot
    have hentries : ∃ n, t.fs.bs.entriesPerCluster.toNat = n + 2 := by
      refine ⟨16 * st.fs.bs.sectorsPerCluster.toNat - 2, ?_⟩
      rw [hsame.fs]
      exact hmounted.toNat_entriesPerCluster.trans (by omega)
    obtain ⟨n, hn⟩ := hentries
    have hfirst : (recordAt buf 1).firstCluster = parent :=
      hdotDot.firstCluster.trans (firstCluster_shortRecord _ _ _)
    rw [scanChain, if_neg (UInt32.not_le.mpr hlt), hread]
    dsimp only
    rw [hn, scanEntries_dotDot hdot hdotDot]
    have hpfa : t.pfa = (pfaAlloc st.pfa).2 := hpfa
    unfold makeNode
    dsimp only [Volume.alloc]
    rw [hpfa, hfirst]
    refine ⟨_, _, rfl, fun hroom => ?_, fun hroom up hup => ?_⟩
    · rw [if_neg hroom.2.1, if_neg hroom.2.2]
      exact ⟨_, rfl, rfl⟩
    · split at hup
      · cases hup
      · rename_i hnode
        obtain rfl := Option.some.inj hup
        exact if_pos (by_contra fun hdatapage => hroom ⟨hpage, hnode, hdatapage⟩)

/-! ## Back to the parent -/

/-- Two nodes of one directory: they start at the same cluster, and list the same entries. -/
structure SameDirectory (dev : Device) (node node' : Node) : Prop where
  firstCluster : node.data.map NodeData.firstCluster = node'.data.map NodeData.firstCluster
  readdir : ∀ fuel st index,
    fat32Readdir dev fuel st node index = fat32Readdir dev fuel st node' index

/-- `fat32_finddir` leads from a node to its parent. -/
def LeadsUp (dev : Device) (st : Volume) (node parent : Node) : Prop :=
  ∃ fuel up st', fat32Finddir dev fuel st node (str "..") = some (some up, st') ∧
    SameDirectory dev up parent

/-- What a directory lists depends on its first cluster alone. -/
theorem sameDirectory_of_firstCluster {node node' : Node} {dir dir' : NodeData}
    (hdata : node.data = some dir) (hdata' : node'.data = some dir')
    (h : dir.firstCluster = dir'.firstCluster) : SameDirectory dev node node' := by
  constructor
  · rw [hdata, hdata', Option.map_some, Option.map_some, h]
  · intro fuel st index
    have hnode (t : Volume) (r : Record) (lfn : Lfn) :
        makeNode t dir r lfn = makeNode t dir' r lfn := by
      unfold makeNode
      rw [h]
    unfold fat32Readdir fat32Scan
    simp only [hdata, hdata', h, hnode]

/-- From a cluster that begins with `.` and `..`, the latter leads to the directory it names. -/
theorem leadsUp_iff (hok : ∀ n, dev.ok n = true) (hmounted : Mounted st.fs) {first q : UInt32}
    (hdots : Dots st d first) {node parent : Node} {dir : NodeData}
    (hnode : node.data = some ⟨d, q⟩) (hdata : parent.data = some dir) :
    LeadsUp dev st node parent ↔
      first = dir.firstCluster ∧ d < endOfChain ∧ ThreeFree st.pfa := by
  constructor
  · rintro ⟨fuel, up, u, hfind, hup⟩
    cases fuel with
    | zero =>
      unfold fat32Finddir fat32Scan at hfind
      rw [hnode] at hfind
      dsimp only [Volume.alloc] at hfind
      split at hfind <;> cases hfind
    | succ fuel =>
      by_cases hlt : d < endOfChain
      · obtain ⟨found, u', hfind', hroom, hfull⟩ :=
          fat32Finddir_dotDot hok hmounted hdots hlt hnode fuel
        obtain ⟨rfl, -⟩ := Prod.mk.inj (Option.some.inj (hfind.symm.trans hfind'))
        have hcluster := hup.firstCluster
        rw [hdata] at hcluster
        by_cases hthree : ThreeFree st.pfa
        · obtain ⟨up', heq, hupdata⟩ := hroom hthree
          obtain rfl := Option.some.inj heq
          rw [hupdata] at hcluster
          exact ⟨Option.some.inj hcluster, hlt, hthree⟩
        · rw [hfull hthree up rfl] at hcluster
          cases hcluster
      · unfold fat32Finddir fat32Scan at hfind
        rw [hnode] at hfind
        dsimp only [Volume.alloc] at hfind
        rw [scanChain, if_pos (UInt32.not_lt.mp hlt)] at hfind
        split at hfind <;> cases hfind
  · rintro ⟨hfirst, hlt, hthree⟩
    obtain ⟨found, u, hfind, hroom, -⟩ := fat32Finddir_dotDot hok hmounted hdots hlt hnode 0
    obtain ⟨up, rfl, hupdata⟩ := hroom hthree
    exact ⟨1, up, u, hfind, sameDirectory_of_firstCluster hupdata hdata hfirst⟩

/-- A directory other than the root is named by its first cluster. -/
theorem parentCluster_eq_iff {fs : Fat32Fs} {p : UInt32} (hp : OnVolume fs p) :
    parentCluster fs p = p ↔ p ≠ fs.rootDirCluster := by
  unfold parentCluster
  constructor
  · intro heq hroot
    rw [if_pos hroot] at heq
    rw [← heq] at hp
    exact absurd hp.1 (by decide)
  · exact fun hroot => if_neg hroot

/-- From a directory that `fat32_mkdir_op` has made, as long as its two first records stay, `..`
leads to the directory it was made in unless that is the root. -/
theorem mkdir_leadsUp_iff (hok : ∀ n, dev.ok n = true) (hmounted : Mounted st.fs) {fuel : ℕ}
    {parent : Node} {dir : NodeData} {name : Str} (hdata : parent.data = some dir)
    (hdir : InUse st dir.firstCluster)
    (h : fat32MkdirOp dev fuel st parent name = some (0, st')) :
    ∃ d, MadeIn st st' dir.firstCluster name d ∧
      ∀ node q t, node.data = some ⟨d, q⟩ → KeepsDots st' t d →
        (LeadsUp dev t node parent ↔
          dir.firstCluster ≠ st.fs.rootDirCluster ∧ d < endOfChain ∧ ThreeFree t.pfa) := by
  obtain ⟨d, hmade, hdots⟩ := fat32MkdirOp_made hok hmounted hdata hdir h
  refine ⟨d, hmade, fun node q t hnode hkeep => ?_⟩
  have hmounted' : Mounted t.fs := by
    rw [hkeep.fs, hmade.fs]
    exact hmounted
  rw [leadsUp_iff hok hmounted' (hdots.keep hkeep) hnode hdata,
    parentCluster_eq_iff (hdir _ .refl).1]

/-! ## Directories on a small volume -/

def smallRoot : Node := (smallVolume 1).2.1.getD ⟨0, [], 0, 0, 0, none⟩

/-- After a directory is made in the root. -/
def oneDirectory : ℤ × Volume :=
  (fat32MkdirOp goodDevice 1 (smallVolume 1).2.2 smallRoot (str "A")).get (by decide +kernel)

/-- The new directory. -/
def nodeA : Node := ⟨0, str "A", 0, vfsDirectory, 0, some ⟨3, 2⟩⟩

/-- A directory of one cluster. -/
theorem inUse_of_end (hc : OnVolume st.fs c) (hend : endOfChain ≤ fatLink st c) : InUse st c := by
  intro x hx
  have hx : x = c := by
    rcases hx.cases_head with rfl | ⟨y, hy, -⟩
    · rfl
    · cases (if_pos hend).symm.trans hy
  subst hx
  refine ⟨hc, fun hzero => ?_⟩
  rw [hzero] at hend
  exact absurd hend (by decide)

/-- A directory in a directory of the root. -/
theorem mkdir_leadsUp_iff_nested : ∃ st',
    fat32MkdirOp goodDevice 1 oneDirectory.2 nodeA (str "B") = some (0, st') ∧
      ∃ d, MadeIn oneDirectory.2 st' 3 (str "B") d ∧
        ∀ node q t, node.data = some ⟨d, q⟩ → KeepsDots st' t d →
          (LeadsUp goodDevice t node nodeA ↔
            3 ≠ oneDirectory.2.fs.rootDirCluster ∧ d < endOfChain ∧ ThreeFree t.pfa) := by
  have hmounted : Mounted oneDirectory.2.fs := ⟨by decide +kernel, by decide +kernel⟩
  have hdir : InUse oneDirectory.2 3 :=
    inUse_of_end ⟨by decide +kernel, by decide +kernel⟩ (by decide +kernel)
  have hmake :
      (fat32MkdirOp goodDevice 1 oneDirectory.2 nodeA (str "B")).map Prod.fst = some 0 := by
    decide +kernel
  obtain ⟨⟨r, st'⟩, hst', hr⟩ := Option.map_eq_some_iff.mp hmake
  obtain rfl : r = 0 := hr
  have hdata : nodeA.data = some ⟨3, 2⟩ := rfl
  exact ⟨st', hst', mkdir_leadsUp_iff (fun _ => rfl) hmounted hdata hdir hst'⟩

/-- From a directory of the root, `..` leads to cluster 0, before the data area. -/
theorem mkdir_root_not_leadsUp :
    (smallVolume 1).1 = 0 ∧ InUse (smallVolume 1).2.2 2 ∧
      fat32MkdirOp goodDevice 1 (smallVolume 1).2.2 smallRoot (str "A") = some (0, oneDirectory.2) ∧
      (fat32Finddir goodDevice 1 oneDirectory.2 nodeA (str "..")).map
        (fun out => out.1.bind fun up => up.data.map NodeData.firstCluster) = some (some 0) ∧
      fat32ClusterToSector oneDirectory.2.fs 0 < oneDirectory.2.fs.dataStartSector ∧
      ¬ LeadsUp goodDevice oneDirectory.2 nodeA smallRoot := by
  have hmounted : Mounted oneDirectory.2.fs := ⟨by decide +kernel, by decide +kernel⟩
  have hmake : oneDirectory.1 = 0 := by decide +kernel
  have hsome : (fat32MkdirOp goodDevice 1 (smallVolume 1).2.2 smallRoot (str "A")).isSome := by
    decide +kernel
  have hdir : InUse (smallVolume 1).2.2 2 :=
    inUse_of_end ⟨by decide +kernel, by decide +kernel⟩ (by decide +kernel)
  have hdots : Dots oneDirectory.2 3 0 := by
    constructor
    · unfold Record.Same
      decide +kernel
    · unfold Record.Same
      decide +kernel
  have hdata : smallRoot.data = some ⟨2, 0⟩ := by decide +kernel
  refine ⟨by decide +kernel, hdir, ?_, by decide +kernel, by decide +kernel, fun hup => ?_⟩
  · rw [← hmake]
    exact (Option.some_get hsome).symm
  · have hnode : nodeA.data = some ⟨3, 2⟩ := rfl
    have hzero := ((leadsUp_iff (fun _ => rfl) hmounted hdots hnode hdata).mp hup).1
    exact absurd hzero (by decide)

end Rhoudveine.Fat32
