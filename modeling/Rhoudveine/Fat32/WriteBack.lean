import Rhoudveine.Fat32.Mount
import Rhoudveine.Lib.Search
import Rhoudveine.Lib.Run

/-!
# Writing the FAT back

What `fat32_alloc_cluster` and `fat32_extend_chain` do to the FAT on the disk.  The whole
memory from `fat_cache` on, as long as one FAT, goes to the first copy.
-/

namespace Rhoudveine.Fat32
open Mm LittleEndian Search

variable {dev : Device} {st st' : Volume}

/-! ## The FAT on the disk -/

/-- The number of entries of a FAT on the disk: 128 to a sector. -/
def fatEntries (st : Volume) : ℕ := st.fs.bs.fatSize32.toNat * 128

/-- Where a copy of the FAT starts. -/
def fatOffset (st : Volume) (copy : ℕ) : ℕ :=
  (st.fs.fatStartSector.toNat + copy * st.fs.bs.fatSize32.toNat) * 512

/-- Entry `e` of a copy. -/
def diskFat (st : Volume) (copy e : ℕ) : UInt32 :=
  UInt32.ofNat (le st.disk (fatOffset st copy + 4 * e) 4)

/-- All copies are equal. -/
def Mirrored (st : Volume) : Prop :=
  ∀ copy < st.fs.bs.numFats.toNat, ∀ e < fatEntries st, diskFat st copy e = diskFat st 0 e

/-- The FAT on the disk changes only in the given entries, which become those of the cache, and
equal copies stay equal. -/
structure WrittenBack (st st' : Volume) (changed : List ℕ) : Prop where
  frame : ∀ copy e, copy = 0 ∨ copy < st.fs.bs.numFats.toNat → e < fatEntries st → e ∉ changed →
    diskFat st' copy e = diskFat st copy e
  cached : ∀ e ∈ changed, e < fatEntries st ∧ diskFat st' 0 e = st'.fatCache e
  mirrored : Mirrored st → Mirrored st'

/-! ## Calls -/

inductive FatCall
  | alloc
  | extend (lastCluster : UInt32)

def fatCall (dev : Device) (st : Volume) : FatCall → UInt32 × Volume
  | .alloc => fat32AllocCluster dev st
  | .extend lastCluster => fat32ExtendChain dev st lastCluster

/-- The cluster, if its cached entry is 0. -/
def freeEntry (cache : ℕ → UInt32) (i : ℕ) : Option ℕ :=
  if cache i &&& 0x0FFFFFFF = 0 then some i else none

/-- The first free cluster from 2 on. -/
def firstFree (st : Volume) : Option ℕ :=
  firstSome (freeEntry st.fatCache) (st.fs.bs.totalClusters.toNat - 2) 2

theorem firstFree_eq_some {r : ℕ} (h : firstFree st = some r) :
    2 ≤ r ∧ r < st.fs.bs.totalClusters.toNat ∧ st.fatCache r &&& 0x0FFFFFFF = 0 ∧
      ∀ j, 2 ≤ j → j < r → st.fatCache j &&& 0x0FFFFFFF ≠ 0 := by
  obtain ⟨i, hlow, hhigh, hentry, hbelow⟩ := firstSome_eq_some.mp h
  unfold freeEntry at hentry
  split at hentry
  · rename_i hfree
    obtain rfl := Option.some.inj hentry
    refine ⟨hlow, by omega, hfree, fun j hj hlt hzero => ?_⟩
    have hnone := hbelow j hj hlt
    rw [freeEntry, if_pos hzero] at hnone
    cases hnone
  · cases hentry

/-- The cache after `fat32_set_fat_entry`. -/
def setWord (cache : ℕ → UInt32) (e : ℕ) (value : UInt32) : ℕ → UInt32 :=
  Function.update cache e ((cache e &&& 0xF0000000) ||| (value &&& 0x0FFFFFFF))

theorem mask_word (x v : UInt32) :
    ((x &&& 0xF0000000) ||| (v &&& 0x0FFFFFFF)) &&& 0x0FFFFFFF = v &&& 0x0FFFFFFF := by
  have hzero : (0xF0000000 : UInt32) &&& 0x0FFFFFFF = 0 := by decide
  have hdistrib (a b m : UInt32) : (a ||| b) &&& m = (a &&& m) ||| (b &&& m) := by
    apply UInt32.toNat_inj.mp
    rw [UInt32.toNat_and, UInt32.toNat_or, UInt32.toNat_or, UInt32.toNat_and, UInt32.toNat_and]
    exact Nat.and_or_distrib_right ..
  rw [hdistrib, UInt32.and_assoc, hzero, UInt32.and_zero, UInt32.zero_or, UInt32.and_assoc,
    UInt32.and_self]

/-- The entries that a call is to change. -/
def changedEntries (st : Volume) : FatCall → List ℕ
  | .alloc => (firstFree st).toList
  | .extend lastCluster => lastCluster.toNat :: (firstFree st).toList

/-- The cache after a call. -/
def cacheAfter (st : Volume) (c : FatCall) : ℕ → UInt32 :=
  match firstFree st with
  | none => st.fatCache
  | some r =>
    match c with
    | .alloc => setWord st.fatCache r 0x0FFFFFFF
    | .extend lastCluster =>
      setWord (setWord st.fatCache r 0x0FFFFFFF) lastCluster.toNat (UInt32.ofNat r)

/-- The cache agrees with the first FAT on the disk in all entries that stay, those that change
have a place there, and no second copy is left behind. -/
structure Coherent (st : Volume) (c : FatCall) : Prop where
  synced : ∀ e < fatEntries st, e ∉ changedEntries st c → st.fatCache e = diskFat st 0 e
  inside : ∀ e ∈ changedEntries st c, e < fatEntries st
  copies : st.fs.bs.numFats.toNat ≤ 1 ∨ ¬ Mirrored st ∨
    ∀ e ∈ changedEntries st c, diskFat st 0 e = cacheAfter st c e

/-! ## The write-back -/

/-- The first FAT of `st'` is the cache, and the rest of the disk is that of `st`. -/
structure Flushed (st st' : Volume) : Prop where
  fs : st'.fs = st.fs
  inside : ∀ e < fatEntries st, diskFat st' 0 e = st'.fatCache e
  outside : ∀ a, a < fatOffset st 0 ∨ fatOffset st 1 ≤ a → st'.disk a = st.disk a

theorem fatOffset_one (st : Volume) : fatOffset st 1 = fatOffset st 0 + fatEntries st * 4 := by
  unfold fatOffset fatEntries
  rw [Nat.add_mul, Nat.add_mul, Nat.zero_mul, Nat.zero_mul, Nat.one_mul, Nat.add_zero]
  omega

/-- A word of the cache, byte by byte. -/
theorem le_cacheBytes (st : Volume) (e : ℕ) : UInt32.ofNat (le (cacheBytes st) (4 * e) 4) =
    st.fatCache e := by
  have hword : le (cacheBytes st) (4 * e) 4 = (st.fatCache e).toNat % 256 ^ 4 := by
    apply le_leByte
    intro k hk
    have hdiv : (4 * e + k) / 4 = e := by omega
    have hmod : (4 * e + k) % 4 = k := by omega
    rw [cacheBytes, hdiv, hmod]
  have hlt : (st.fatCache e).toNat < 256 ^ 4 :=
    (st.fatCache e).toNat_lt.trans_eq (by norm_num)
  rw [hword, Nat.mod_eq_of_lt hlt, UInt32.ofNat_toNat]

theorem writeFat_flushed (h : (writeFat dev st).1 = true) : Flushed st (writeFat dev st).2 := by
  have hok : dev.ok st.transfers = true := h
  have hstart : st.fs.fatStartSector.toNat * 512 = fatOffset st 0 := by
    rw [fatOffset, Nat.zero_mul, Nat.add_zero]
  have hone := fatOffset_one st
  have hlen : st.fs.bs.fatSize32.toNat * 512 = fatEntries st * 4 := by
    rw [fatEntries, Nat.mul_assoc]
  constructor
  · rfl
  · intro e he
    rw [← le_cacheBytes]
    apply congrArg UInt32.ofNat
    apply le_congr
    intro k hk
    have hoff : fatOffset (writeFat dev st).2 0 = fatOffset st 0 := rfl
    have hin : fatOffset st 0 ≤ fatOffset st 0 + 4 * e + k ∧
        fatOffset st 0 + 4 * e + k < fatOffset st 0 + fatEntries st * 4 := by omega
    have hcache : cacheBytes (writeFat dev st).2 = cacheBytes st := rfl
    have hat : fatOffset st 0 + 4 * e + k - fatOffset st 0 = 4 * e + k := by omega
    rw [hoff, hcache]
    simp only [writeFat, ahciWriteSectors, hok, if_true, hstart, hlen, if_pos hin, hat]
  · intro a ha
    have hout : ¬ (fatOffset st 0 ≤ a ∧ a < fatOffset st 0 + fatEntries st * 4) := by omega
    simp only [writeFat, ahciWriteSectors, hstart, hlen, if_neg hout]

/-- Bytes outside the first FAT, read as words. -/
theorem Flushed.diskFat_copy (h : Flushed st st') {copy : ℕ} (hcopy : copy ≠ 0) (e : ℕ) :
    diskFat st' copy e = diskFat st copy e := by
  have hoff : fatOffset st' copy = fatOffset st copy := by
    rw [fatOffset, fatOffset, h.fs]
  apply congrArg UInt32.ofNat
  apply le_congr
  intro k _
  rw [hoff]
  apply h.outside
  right
  have hle : 1 * st.fs.bs.fatSize32.toNat ≤ copy * st.fs.bs.fatSize32.toNat :=
    Nat.mul_le_mul_right _ (Nat.one_le_iff_ne_zero.mpr hcopy)
  unfold fatOffset
  omega

/-- What a write-back after a change of some entries amounts to. -/
theorem Flushed.writtenBack_iff (h : Flushed st st') {changed : List ℕ}
    (hcache : ∀ e, e ∉ changed → st'.fatCache e = st.fatCache e) :
    WrittenBack st st' changed ↔
      (∀ e < fatEntries st, e ∉ changed → st.fatCache e = diskFat st 0 e) ∧
        (∀ e ∈ changed, e < fatEntries st) ∧
        (st.fs.bs.numFats.toNat ≤ 1 ∨ ¬ Mirrored st ∨
          ∀ e ∈ changed, diskFat st 0 e = st'.fatCache e) := by
  have hentries : fatEntries st' = fatEntries st := by
    rw [fatEntries, fatEntries, h.fs]
  constructor
  · intro hw
    refine ⟨fun e he hout => ?_, fun e he => (hw.cached e he).1, ?_⟩
    · rw [← hcache e hout, ← h.inside e he, hw.frame 0 e (Or.inl rfl) he hout]
    · by_cases hone : st.fs.bs.numFats.toNat ≤ 1
      · exact Or.inl hone
      · right
        by_cases hmirror : Mirrored st
        · right
          intro e he
          -- the second copy still has the old entry
          have hlt := (hw.cached e he).1
          have hsecond := hw.mirrored hmirror 1 (by rw [h.fs]; omega) e (by rwa [hentries])
          rw [h.diskFat_copy one_ne_zero e, hmirror 1 (by omega) e hlt] at hsecond
          rw [hsecond, h.inside e hlt]
        · exact Or.inl hmirror
  · rintro ⟨hsync, hin, hcopies⟩
    refine ⟨fun copy e _ he hout => ?_, fun e he => ⟨hin e he, h.inside e (hin e he)⟩, ?_⟩
    · by_cases hcopy : copy = 0
      · rw [hcopy, h.inside e he, hcache e hout, hsync e he hout]
      · exact h.diskFat_copy hcopy e
    · intro hmirror copy hcopy e he
      rw [hentries] at he
      rw [h.fs] at hcopy
      by_cases hzero : copy = 0
      · rw [hzero]
      · rw [h.diskFat_copy hzero e, hmirror copy hcopy e he, h.inside e he]
        rcases hcopies with hone | hnot | hold
        · omega
        · exact absurd hmirror hnot
        · by_cases hchanged : e ∈ changed
          · exact hold e hchanged
          · rw [hcache e hchanged, hsync e he hchanged]

/-! ## The search for a free cluster -/

theorem fat32GetFatEntry_valid (h : st.fs.fatCacheValid = true) (cluster : UInt32) :
    fat32GetFatEntry st cluster = (st.fatCache cluster.toNat &&& 0x0FFFFFFF,
      st.touch st.fs.fatCachePage (cluster.toNat * 4) 4) :=
  if_neg (not_not.mpr h)

theorem fat32SetFatEntry_valid (h : st.fs.fatCacheValid = true) (cluster value : UInt32) :
    fat32SetFatEntry st cluster value =
      { st.touch st.fs.fatCachePage (cluster.toNat * 4) 4 with
        fatCache := setWord st.fatCache cluster.toNat value } :=
  if_neg (not_not.mpr h)

/-- A volume that was only looked at. -/
def Volume.withAccesses (st : Volume) (accesses : List Access) : Volume :=
  { st with accesses := accesses }

/-- Mark cluster `r` and write the FAT back: the end of `fat32_alloc_cluster`. -/
def markCluster (dev : Device) (st : Volume) (r : UInt32) : Bool × Volume :=
  writeFat dev (fat32SetFatEntry st r 0x0FFFFFFF)

/-- The cache has the mark whatever becomes of the write-back. -/
theorem markCluster_fatCache (hvalid : st.fs.fatCacheValid = true) (accesses : List Access)
    (r : UInt32) :
    (markCluster dev (st.withAccesses accesses) r).2.fs = st.fs ∧
      (markCluster dev (st.withAccesses accesses) r).2.fatCache =
        setWord st.fatCache r.toNat 0x0FFFFFFF := by
  rw [markCluster, @fat32SetFatEntry_valid (st.withAccesses accesses) hvalid r 0x0FFFFFFF]
  exact ⟨rfl, rfl⟩

theorem allocLoop_cases (hvalid : st.fs.fatCacheValid = true) {rounds : ℕ} {i : UInt32}
    (hi : i.toNat + rounds < 2 ^ 32) (accesses : List Access) :
    (firstSome (freeEntry st.fatCache) rounds i.toNat = none ∧ ∃ accesses',
        allocLoop dev rounds i (st.withAccesses accesses) = (0, st.withAccesses accesses')) ∨
      ∃ r accesses', firstSome (freeEntry st.fatCache) rounds i.toNat = some r.toNat ∧ i ≤ r ∧
        allocLoop dev rounds i (st.withAccesses accesses) =
          (if (markCluster dev (st.withAccesses accesses') r).1 then r else 0,
            (markCluster dev (st.withAccesses accesses') r).2) := by
  induction rounds generalizing i accesses with
  | zero => exact Or.inl ⟨rfl, accesses, rfl⟩
  | succ rounds ih =>
    obtain ⟨accesses', hget⟩ : ∃ accesses', fat32GetFatEntry (st.withAccesses accesses) i =
        (st.fatCache i.toNat &&& 0x0FFFFFFF, st.withAccesses accesses') :=
      ⟨_, @fat32GetFatEntry_valid (st.withAccesses accesses) hvalid i⟩
    rw [allocLoop, hget, firstSome, freeEntry]
    by_cases hzero : st.fatCache i.toNat &&& 0x0FFFFFFF = 0
    · right
      refine ⟨i, accesses', ?_, UInt32.le_refl i, ?_⟩
      · rw [if_pos hzero]
      · have hmark : writeFat dev (fat32SetFatEntry (st.withAccesses accesses') i 0x0FFFFFFF) =
            markCluster dev (st.withAccesses accesses') i := rfl
        simp only [if_pos hzero, hmark]
        obtain ⟨ok, t⟩ := markCluster dev (st.withAccesses accesses') i
        cases ok with
        | false => rfl
        | true => rfl
    · simp only [if_neg hzero]
      have hnext : (i + 1).toNat = i.toNat + 1 := by
        rw [UInt32.toNat_add, UInt32.toNat_one]
        omega
      have hrest := @ih (i + 1) (by omega) accesses'
      rw [hnext] at hrest
      rcases hrest with hnone | ⟨r, last, hsome, hle, heq⟩
      · exact Or.inl hnone
      · right
        refine ⟨r, last, hsome, ?_, heq⟩
        rw [UInt32.le_iff_toNat_le] at hle ⊢
        omega

/-- The outcomes of `fat32_alloc_cluster`: nothing, or the first free cluster if the write-back
succeeds. -/
theorem fat32AllocCluster_cases (hvalid : st.fs.fatCacheValid = true) :
    (firstFree st = none ∧ ∃ accesses, fat32AllocCluster dev st = (0, st.withAccesses accesses)) ∨
      ∃ r accesses, firstFree st = some r.toNat ∧ 2 ≤ r ∧
        fat32AllocCluster dev st =
          (if (markCluster dev (st.withAccesses accesses) r).1 then r else 0,
            (markCluster dev (st.withAccesses accesses) r).2) := by
  have hlt := st.fs.bs.totalClusters.toNat_lt
  by_cases htwo : st.fs.bs.totalClusters.toNat ≤ 2
  · left
    have hrounds : st.fs.bs.totalClusters.toNat - 2 = 0 := by omega
    refine ⟨?_, st.accesses, ?_⟩
    · rw [firstFree, hrounds, firstSome]
    · rw [fat32AllocCluster, if_neg (not_not.mpr hvalid), hrounds, allocLoop]
      rfl
  · have hloop := @allocLoop_cases dev st hvalid (st.fs.bs.totalClusters.toNat - 2) 2
      (by change 2 + _ < 2 ^ 32; omega) st.accesses
    rw [fat32AllocCluster, if_neg (not_not.mpr hvalid)]
    exact hloop

/-! ## What a call does -/

theorem Flushed.trans {t t' u : Volume} (h : Flushed st t) (hfs : t'.fs = t.fs)
    (hdisk : t'.disk = t.disk) (h' : Flushed t' u) : Flushed st u := by
  have hsame : t'.fs = st.fs := hfs.trans h.fs
  have hoff (copy : ℕ) : fatOffset t' copy = fatOffset st copy := by
    rw [fatOffset, fatOffset, hsame]
  have hoff' (copy : ℕ) : fatOffset u copy = fatOffset st copy := by
    rw [fatOffset, fatOffset, h'.fs, hsame]
  constructor
  · exact h'.fs.trans hsame
  · intro e he
    apply h'.inside
    rwa [fatEntries, hsame]
  · intro a ha
    have hkeep := h'.outside a
    rw [hoff, hoff] at hkeep
    rw [hkeep ha, hdisk, h.outside a ha]

/-- The first FAT is untouched until the write-back. -/
theorem markCluster_flushed {r : UInt32} (hvalid : st.fs.fatCacheValid = true)
    {accesses : List Access} (hok : (markCluster dev (st.withAccesses accesses) r).1 = true) :
    Flushed st (markCluster dev (st.withAccesses accesses) r).2 ∧
      (markCluster dev (st.withAccesses accesses) r).2.fatCache =
        setWord st.fatCache r.toNat 0x0FFFFFFF := by
  have hset := @fat32SetFatEntry_valid (st.withAccesses accesses) hvalid r 0x0FFFFFFF
  have hflush := writeFat_flushed hok
  rw [markCluster, hset] at *
  exact ⟨⟨hflush.fs, hflush.inside, hflush.outside⟩, rfl⟩

theorem fat32AllocCluster_ok (hr : (fat32AllocCluster dev st).1 ≠ 0) :
    ∃ r : UInt32, firstFree st = some r.toNat ∧ (fat32AllocCluster dev st).1 = r ∧
      Flushed st (fat32AllocCluster dev st).2 ∧
      (fat32AllocCluster dev st).2.fatCache = setWord st.fatCache r.toNat 0x0FFFFFFF ∧
      (fat32AllocCluster dev st).2.transfers = st.transfers + 1 := by
  have hvalid : st.fs.fatCacheValid = true := by
    by_contra hnot
    exact hr (by rw [fat32AllocCluster, if_pos hnot])
  rcases @fat32AllocCluster_cases dev st hvalid with ⟨-, accesses, heq⟩ | ⟨r, accesses, hfree, -, heq⟩
  · rw [heq] at hr
    exact absurd rfl hr
  · rw [heq] at hr ⊢
    have hok : (markCluster dev (st.withAccesses accesses) r).1 = true := by
      by_contra hfail
      exact hr (if_neg hfail)
    obtain ⟨hflush, hcache⟩ := markCluster_flushed hvalid hok
    refine ⟨r, hfree, if_pos hok, hflush, hcache, ?_⟩
    rw [markCluster, @fat32SetFatEntry_valid (st.withAccesses accesses) hvalid]
    rfl

theorem fatCall_flushed {c : FatCall} (hok : ∀ n, st.transfers ≤ n → dev.ok n = true)
    (hr : (fatCall dev st c).1 ≠ 0) :
    Flushed st (fatCall dev st c).2 ∧ (fatCall dev st c).2.fatCache = cacheAfter st c := by
  cases c with
  | alloc =>
    obtain ⟨r, hfree, -, hflush, hcache, -⟩ := fat32AllocCluster_ok hr
    rw [fatCall, cacheAfter, hfree]
    exact ⟨hflush, hcache⟩
  | extend lastCluster =>
    have halloc : (fat32AllocCluster dev st).1 ≠ 0 := by
      intro hzero
      exact hr (by simp only [fatCall, fat32ExtendChain, hzero, if_true])
    obtain ⟨r, hfree, hfirst, hflush, hcache, htransfers⟩ := fat32AllocCluster_ok halloc
    have hvalid : (fat32AllocCluster dev st).2.fs.fatCacheValid = true := by
      by_contra hnot
      rw [hflush.fs] at hnot
      exact halloc (by rw [fat32AllocCluster, if_pos hnot])
    have hset := @fat32SetFatEntry_valid _ hvalid lastCluster r
    rw [hfirst] at halloc
    simp only [fatCall, fat32ExtendChain, hfirst, if_neg halloc, cacheAfter, hfree]
    rw [hset, hcache]
    constructor
    · refine Flushed.trans hflush ?_ ?_ (writeFat_flushed ?_)
      · rfl
      · rfl
      · apply hok
        rw [Volume.touch, htransfers]
        exact Nat.le_succ _
    · rw [UInt32.ofNat_toNat]
      rfl

theorem cacheAfter_of_not_mem {c : FatCall} {e : ℕ} (h : e ∉ changedEntries st c) :
    cacheAfter st c e = st.fatCache e := by
  unfold cacheAfter
  cases hfree : firstFree st with
  | none => rfl
  | some r =>
    cases c with
    | alloc =>
      rw [changedEntries, hfree] at h
      have hne : e ≠ r := fun heq => h (by simp [heq])
      simp only [setWord, Function.update_of_ne hne]
    | extend lastCluster =>
      rw [changedEntries, hfree] at h
      have hne : e ≠ r := fun heq => h (by simp [heq])
      have hlast : e ≠ lastCluster.toNat := fun heq => h (by simp [heq])
      simp only [setWord, Function.update_of_ne hlast, Function.update_of_ne hne]

/-! ## Volumes whose FAT fits the cache -/

/-- The cache agrees with the first FAT on the disk. -/
def Synced (st : Volume) : Prop := ∀ e < fatEntries st, st.fatCache e = diskFat st 0 e

/-- Mounting reads a FAT of at most eight sectors as a whole. -/
theorem MountedFrom.synced {root : Node} (h : MountedFrom st st' root)
    (hsize : st'.fs.bs.fatSize32.toNat ≤ 8) : Synced st' := by
  intro e he
  have hbs : st'.fs.bs = BootSector.ofBytes st.disk := by
    rw [h.fs]
    rfl
  have hsmall : st'.fs.bs.fatSizeBytes.toNat = st'.fs.bs.fatSize32.toNat * 512 := by
    rw [BootSector.fatSizeBytes, UInt32.toNat_mul]
    change st'.fs.bs.fatSize32.toNat * 512 % 2 ^ 32 = _
    omega
  have hread : st'.fs.bs.sectorsToRead = st'.fs.bs.fatSize32 := by
    apply if_neg
    rw [gt_iff_lt, UInt32.lt_iff_toNat_lt, hsmall]
    change ¬ 4096 < _
    omega
  rw [diskFat, h.disk, fatOffset, Nat.zero_mul, Nat.add_zero]
  apply h.cached
  rw [← hbs, hread]
  exact he

theorem synced_fatCall {c : FatCall} (hok : ∀ n, st.transfers ≤ n → dev.ok n = true)
    (hr : (fatCall dev st c).1 ≠ 0) : Synced (fatCall dev st c).2 := by
  obtain ⟨hflush, -⟩ := fatCall_flushed hok hr
  intro e he
  rw [fatEntries, hflush.fs] at he
  rw [hflush.inside e he]

/-- With at most one FAT, a cache in step with the disk is enough. -/
theorem Synced.coherent (h : Synced st) (hone : st.fs.bs.numFats.toNat ≤ 1) {c : FatCall}
    (hin : ∀ e ∈ changedEntries st c, e < fatEntries st) : Coherent st c where
  synced e he _ := h e he
  inside := hin
  copies := Or.inl hone

/-! ## When the FAT stays in order -/

theorem Coherent.writtenBack {c : FatCall} (h : Coherent st c)
    (hok : ∀ n, st.transfers ≤ n → dev.ok n = true) (hr : (fatCall dev st c).1 ≠ 0) :
    WrittenBack st (fatCall dev st c).2 (changedEntries st c) := by
  obtain ⟨hflush, hcache⟩ := fatCall_flushed hok hr
  rw [hflush.writtenBack_iff fun e he => by rw [hcache, cacheAfter_of_not_mem he], hcache]
  exact ⟨h.synced, h.inside, h.copies⟩

/-- A call keeps the FAT on the disk in order exactly when it starts from a coherent one. -/
theorem fatCall_writtenBack_iff (c : FatCall) (hok : ∀ n, st.transfers ≤ n → dev.ok n = true)
    (hr : (fatCall dev st c).1 ≠ 0) :
    WrittenBack st (fatCall dev st c).2 (changedEntries st c) ↔ Coherent st c := by
  obtain ⟨hflush, hcache⟩ := fatCall_flushed hok hr
  constructor
  · intro hw
    rw [hflush.writtenBack_iff fun e he => by rw [hcache, cacheAfter_of_not_mem he], hcache] at hw
    obtain ⟨hsynced, hinside, hcopies⟩ := hw
    exact ⟨hsynced, hinside, hcopies⟩
  · exact fun h => h.writtenBack hok hr

/-- A call that returns 0 although no write fails has found no free cluster. -/
theorem fatCall_zero {c : FatCall} (hok : ∀ n, st.transfers ≤ n → dev.ok n = true)
    (hr : (fatCall dev st c).1 = 0) :
    ∃ accesses, (fatCall dev st c).2 = st.withAccesses accesses := by
  have halloc : (fat32AllocCluster dev st).1 = 0 →
      ∃ accesses, (fat32AllocCluster dev st).2 = st.withAccesses accesses := by
    intro hzero
    by_cases hvalid : st.fs.fatCacheValid = true
    · rcases @fat32AllocCluster_cases dev st hvalid with ⟨-, accesses, heq⟩ | ⟨r, a, -, htwo, heq⟩
      · exact ⟨accesses, by rw [heq]⟩
      · have hmark : (markCluster dev (st.withAccesses a) r).1 = true := by
          have hset := @fat32SetFatEntry_valid (st.withAccesses a) hvalid r 0x0FFFFFFF
          rw [markCluster, hset]
          exact hok st.transfers (Nat.le_refl _)
        rw [heq] at hzero
        simp only [if_pos hmark] at hzero
        rw [hzero] at htwo
        cases htwo
    · exact ⟨st.accesses, by rw [fat32AllocCluster, if_pos hvalid]; rfl⟩
  cases c with
  | alloc => exact halloc hr
  | extend lastCluster =>
    by_cases hzero : (fat32AllocCluster dev st).1 = 0
    · simp only [fatCall, fat32ExtendChain, hzero, if_true]
      exact halloc hzero
    · simp only [fatCall, fat32ExtendChain, if_neg hzero] at hr
      exact absurd hr hzero

/-- The geometry that `fat32_mount` does not check: a FAT of at most eight sectors, in one copy,
with an entry for every cluster. -/
structure FitsCache (bs : BootSector) : Prop where
  size_le : bs.fatSize32.toNat ≤ 8
  one : bs.numFats.toNat ≤ 1
  clusters_le : bs.totalClusters.toNat ≤ bs.fatSize32.toNat * 128

/-- The linked cluster has an entry too. -/
def LastInside (st : Volume) : FatCall → Prop
  | .alloc => True
  | .extend lastCluster => lastCluster.toNat < fatEntries st

theorem changedEntries_lt {c : FatCall} (hfit : FitsCache st.fs.bs) (hlast : LastInside st c) :
    ∀ e ∈ changedEntries st c, e < fatEntries st := by
  have hfree : ∀ e ∈ (firstFree st).toList, e < fatEntries st := by
    intro e he
    rw [Option.mem_toList] at he
    obtain ⟨-, hlt, -, -⟩ := firstFree_eq_some he
    have hle := hfit.clusters_le
    unfold fatEntries
    omega
  cases c with
  | alloc => exact hfree
  | extend lastCluster =>
    intro e he
    rcases List.mem_cons.mp he with rfl | he
    · exact hlast
    · exact hfree e he

def fatStep (dev : Device) (st : Volume) (c : FatCall) : Option Volume := some (fatCall dev st c).2

/-- On a mounted volume that fits the cache, every run of calls keeps the FAT on the disk in
order. -/
theorem mounted_writtenBack {root : Node} (hmount : MountedFrom st st' root)
    (hfit : FitsCache st'.fs.bs) (hok : ∀ n, dev.ok n = true) {calls : List FatCall}
    (hlast : ∀ c ∈ calls, LastInside st' c) :
    Always (fatStep dev) (fun t c => (fatCall dev t c).1 ≠ 0 →
      WrittenBack t (fatCall dev t c).2 (changedEntries t c)) st' calls := by
  have hsynced := hmount.synced hfit.size_le
  clear hmount
  induction calls generalizing st' with
  | nil => trivial
  | cons c calls ih =>
    have hinside := changedEntries_lt hfit (hlast c List.mem_cons_self)
    refine ⟨fun hr => ?_, fun t ht => ?_⟩
    · exact (hsynced.coherent hfit.one hinside).writtenBack (fun n _ => hok n) hr
    · obtain rfl := Option.some.inj ht
      have hrest : ∀ d ∈ calls, LastInside st' d := fun d hd => hlast d (List.mem_cons_of_mem c hd)
      by_cases hr : (fatCall dev st' c).1 = 0
      · obtain ⟨accesses, heq⟩ := fatCall_zero (fun n _ => hok n) hr
        rw [heq]
        exact ih hfit hrest hsynced
      · obtain ⟨hflush, -⟩ := fatCall_flushed (fun n _ => hok n) hr
        apply ih
        · rwa [hflush.fs]
        · intro d hd
          have hd := hrest d hd
          cases d with
          | alloc => trivial
          | extend lastCluster =>
            rw [LastInside, fatEntries, hflush.fs]
            exact hd
        · exact synced_fatCall (fun n _ => hok n) hr

/-! ## Two copies -/

/-- A device that never fails. -/
def goodDevice : Device := ⟨fun _ => true, fun _ _ => 0, fun _ _ => 0⟩

/-- An allocator whose frames above 4 GiB are all free. -/
def freshPfa : Pfa :=
  { bitmap := fun _ => 0
    bitmapBase := 0x100000000
    freePagesCount := 2097152
    totalPagesCount := 2097152
    lowBitmap := fun _ => 0xFF
    lowFreeCount := 0
    lowTotalCount := 0 }

/-- The state before anything is mounted. -/
def unmounted (disk : ℕ → UInt8) : Volume :=
  { fs := ⟨⟨0, 0, 0, 0, 0, 0, 0, 0⟩, 0, 0, 0, 0, false⟩
    fatCache := fun _ => 0
    disk := disk
    transfers := 0
    pfa := freshPfa
    accesses := [] }

/-- A volume of 64 sectors with one sector a cluster and `numFats` copies of a FAT of one sector,
in which the clusters from 3 on are free. -/
def smallDisk (numFats : UInt8) (a : ℕ) : UInt8 :=
  if a = 12 then 2 else if a = 13 then 1 else if a = 14 then 1 else if a = 16 then numFats
  else if a = 32 then 64 else if a = 36 then 1 else if a = 44 then 2
  else if 512 ≤ a ∧ a < 512 * (1 + numFats.toNat) ∧ a % 512 < 12 then
    if a % 4 = 3 then 0x0F else 0xFF
  else 0

def smallVolume (numFats : UInt8) : ℤ × Option Node × Volume :=
  fat32Mount goodDevice (unmounted (smallDisk numFats)) none

/-- With one FAT an allocation keeps the disk in order. -/
theorem fatCall_writtenBack_iff_oneFat :
    (fatCall goodDevice (smallVolume 1).2.2 .alloc).1 = 3 ∧
      (WrittenBack (smallVolume 1).2.2 (fatCall goodDevice (smallVolume 1).2.2 .alloc).2
          (changedEntries (smallVolume 1).2.2 .alloc) ↔ Coherent (smallVolume 1).2.2 .alloc) := by
  have hthree : (fatCall goodDevice (smallVolume 1).2.2 .alloc).1 = 3 := by decide +kernel
  refine ⟨hthree, fatCall_writtenBack_iff .alloc (fun _ _ => rfl) ?_⟩
  rw [hthree]
  decide

/-- With two copies of the FAT the second one is left behind. -/
theorem twoFats_not_writtenBack :
    (smallVolume 2).1 = 0 ∧ (fatCall goodDevice (smallVolume 2).2.2 .alloc).1 = 3 ∧
      ¬ WrittenBack (smallVolume 2).2.2 (fatCall goodDevice (smallVolume 2).2.2 .alloc).2
        (changedEntries (smallVolume 2).2.2 .alloc) := by
  refine ⟨by decide +kernel, by decide +kernel, fun h => ?_⟩
  have hbefore : ∀ copy < (smallVolume 2).2.2.fs.bs.numFats.toNat,
      ∀ e < fatEntries (smallVolume 2).2.2,
        diskFat (smallVolume 2).2.2 copy e = diskFat (smallVolume 2).2.2 0 e := by
    decide +kernel
  have hafter := h.mirrored hbefore 1 (by decide +kernel) 3 (by decide +kernel)
  revert hafter
  decide +kernel

end Rhoudveine.Fat32
