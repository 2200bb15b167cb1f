import Rhoudveine.Fat32.WriteBack

/-!
# Images of the FAT

`fat32_alloc_cluster` and `fat32_extend_chain` change the cached FAT before they write it, and
each write may fail.  Beside the volume stands the image of the FAT that was last written with
success.
-/

namespace Rhoudveine.Fat32
open Mm

variable {dev : Device} {st : Volume} {image : ℕ → UInt32} {lastCluster : UInt32}

/-! ## The last image -/

/-- The image after a stretch of code that writes the FAT at most once. -/
def recordWrite (dev : Device) (before after : Volume) (image : ℕ → UInt32) : ℕ → UInt32 :=
  if after.transfers = before.transfers then image
  else if dev.ok before.transfers then after.fatCache else image

/-- The image after a call.  `fat32_extend_chain` writes for a second time when it has linked the
new cluster. -/
def imageAfter (dev : Device) (st : Volume) (image : ℕ → UInt32) : FatCall → ℕ → UInt32
  | .alloc => recordWrite dev st (fat32AllocCluster dev st).2 image
  | .extend lastCluster =>
    if (fat32AllocCluster dev st).1 = 0 then recordWrite dev st (fat32AllocCluster dev st).2 image
    else
      recordWrite dev (fat32AllocCluster dev st).2 (fat32ExtendChain dev st lastCluster).2
        (recordWrite dev st (fat32AllocCluster dev st).2 image)

/-- A volume and the image of its FAT that was last written with success. -/
structure Tracked where
  vol : Volume
  image : ℕ → UInt32

def trackedStep (dev : Device) (s : Tracked) (c : FatCall) : Option Tracked :=
  some ⟨(fatCall dev s.vol c).2, imageAfter dev s.vol s.image c⟩

theorem recordWrite_writeFat {t t' : Volume} (h : t'.transfers = t.transfers) :
    recordWrite dev t (writeFat dev t').2 image =
      if dev.ok t.transfers then t'.fatCache else image := by
  have hne : (writeFat dev t').2.transfers ≠ t.transfers := by
    rw [← h]
    exact Nat.succ_ne_self _
  exact if_neg hne

/-! ## Agreement -/

/-- The image has an entry for the cluster that a call returned, which is not free, and for the
link to it. -/
def Contains (st : Volume) (image : ℕ → UInt32) (r : UInt32) (c : FatCall) : Prop :=
  (r.toNat < fatEntries st ∧ image r.toNat &&& 0x0FFFFFFF ≠ 0) ∧ LastInside st c ∧
    ∀ lastCluster, c = .extend lastCluster → image lastCluster.toNat &&& 0x0FFFFFFF = r

/-- The result of a call, the cached FAT and the last image agree. -/
structure Agrees (dev : Device) (s : Tracked) (c : FatCall) : Prop where
  unchanged : (fatCall dev s.vol c).1 = 0 → (fatCall dev s.vol c).2.fatCache = s.vol.fatCache
  contained : (fatCall dev s.vol c).1 ≠ 0 →
    Contains s.vol (imageAfter dev s.vol s.image c) (fatCall dev s.vol c).1 c

/-- The second write succeeds with a cluster number that fits an entry, or the entry led to the
new cluster before it was linked. -/
def LinkLands (dev : Device) (st : Volume) (r : ℕ) : FatCall → Prop
  | .alloc => True
  | .extend lastCluster =>
    (dev.ok (st.transfers + 1) = true ∧ r < 2 ^ 28) ∨
      setWord st.fatCache r 0x0FFFFFFF lastCluster.toNat &&& 0x0FFFFFFF = UInt32.ofNat r

/-- Nothing is free, or the writes succeed and what changes lies in the FAT. -/
def Lands (dev : Device) (st : Volume) (c : FatCall) : Prop :=
  st.fs.fatCacheValid = true → ∀ r, firstFree st = some r →
    dev.ok st.transfers = true ∧ r < fatEntries st ∧ LastInside st c ∧ LinkLands dev st r c

/-! ## One allocation -/

/-- An entry is set in the cache only. -/
theorem fat32SetFatEntry_rest (cluster value : UInt32) :
    (fat32SetFatEntry st cluster value).fs = st.fs ∧
      (fat32SetFatEntry st cluster value).transfers = st.transfers := by
  unfold fat32SetFatEntry
  split
  · exact ⟨rfl, rfl⟩
  · exact ⟨rfl, rfl⟩

/-- The second half of `fat32_extend_chain`, whose write is not checked. -/
theorem fat32ExtendChain_of_ne_zero (h : (fat32AllocCluster dev st).1 ≠ 0) :
    fat32ExtendChain dev st lastCluster = ((fat32AllocCluster dev st).1,
      (writeFat dev (fat32SetFatEntry (fat32AllocCluster dev st).2 lastCluster
        (fat32AllocCluster dev st).1)).2) := by
  simp only [fat32ExtendChain, if_neg h]

/-- The marked cache after an allocation, which is written as it stands. -/
structure TakesFirst (dev : Device) (st : Volume) (r : UInt32) : Prop where
  result : (fat32AllocCluster dev st).1 = if dev.ok st.transfers then r else 0
  fs : (fat32AllocCluster dev st).2.fs = st.fs
  fatCache : (fat32AllocCluster dev st).2.fatCache = setWord st.fatCache r.toNat 0x0FFFFFFF
  transfers : (fat32AllocCluster dev st).2.transfers = st.transfers + 1

theorem fat32AllocCluster_takesFirst (hvalid : st.fs.fatCacheValid = true) {r : ℕ}
    (hfree : firstFree st = some r) :
    ∃ cluster : UInt32, cluster.toNat = r ∧ cluster ≠ 0 ∧ TakesFirst dev st cluster := by
  rcases @fat32AllocCluster_cases dev st hvalid with ⟨hnone, -⟩ | ⟨c, accesses, hsome, htwo, heq⟩
  · rw [hnone] at hfree
    cases hfree
  · obtain ⟨hfs, hcache⟩ := @markCluster_fatCache dev st hvalid accesses c
    have hset := @fat32SetFatEntry_valid (st.withAccesses accesses) hvalid c 0x0FFFFFFF
    refine ⟨c, Option.some.inj (hsome.symm.trans hfree), ?_, ?_, ?_, ?_, ?_⟩
    · rintro rfl
      exact absurd htwo (by decide)
    · rw [heq, markCluster, hset]
      rfl
    · rw [heq, hfs]
    · rw [heq, hcache]
    · rw [heq, markCluster, hset]
      rfl

/-- Nothing is free, or the cache was never read. -/
theorem fat32AllocCluster_nothing (h : st.fs.fatCacheValid = true → firstFree st = none) :
    (fat32AllocCluster dev st).1 = 0 ∧ (fat32AllocCluster dev st).2.fatCache = st.fatCache := by
  by_cases hvalid : st.fs.fatCacheValid = true
  · rcases @fat32AllocCluster_cases dev st hvalid with ⟨-, accesses, heq⟩ | ⟨c, -, hsome, -, -⟩
    · rw [heq]
      exact ⟨rfl, rfl⟩
    · rw [h hvalid] at hsome
      cases hsome
  · rw [fat32AllocCluster, if_pos hvalid]
    exact ⟨rfl, rfl⟩

namespace TakesFirst
variable {r : UInt32} (h : TakesFirst dev st r)
include h

theorem recordWrite_eq : recordWrite dev st (fat32AllocCluster dev st).2 image =
    if dev.ok st.transfers then setWord st.fatCache r.toNat 0x0FFFFFFF else image := by
  have hne : (fat32AllocCluster dev st).2.transfers ≠ st.transfers := by
    rw [h.transfers]
    exact Nat.succ_ne_self _
  rw [recordWrite, if_neg hne, h.fatCache]

theorem extend_eq (hvalid : st.fs.fatCacheValid = true) (hr : r ≠ 0)
    (hok : dev.ok st.transfers = true) :
    (fat32ExtendChain dev st lastCluster).1 = r ∧
      imageAfter dev st image (.extend lastCluster) =
        if dev.ok (st.transfers + 1) then
          setWord (setWord st.fatCache r.toNat 0x0FFFFFFF) lastCluster.toNat r
        else setWord st.fatCache r.toNat 0x0FFFFFFF := by
  have hfirst : (fat32AllocCluster dev st).1 = r := h.result.trans (if_pos hok)
  have hextend := @fat32ExtendChain_of_ne_zero dev st lastCluster (hfirst.trans_ne hr)
  have hvalid' : (fat32AllocCluster dev st).2.fs.fatCacheValid = true := by
    rw [h.fs, hvalid]
  rw [hfirst] at hextend
  constructor
  · rw [hextend]
  · have hsecond := @recordWrite_writeFat dev (setWord st.fatCache r.toNat 0x0FFFFFFF) _ _
      (@fat32SetFatEntry_rest (fat32AllocCluster dev st).2 lastCluster r).2
    rw [imageAfter, hfirst, if_neg hr, h.recordWrite_eq, if_pos hok, hextend, hsecond,
      fat32SetFatEntry_valid hvalid', h.fatCache, h.transfers]

end TakesFirst

/-! ## One call -/

/-- A cluster number that fits an entry. -/
theorem mask_eq_self (r : UInt32) : r &&& 0x0FFFFFFF = r ↔ r.toNat < 2 ^ 28 := by
  have hmod : (r &&& 0x0FFFFFFF).toNat = r.toNat % 2 ^ 28 := by
    rw [UInt32.toNat_and]
    exact Nat.and_two_pow_sub_one_eq_mod r.toNat 28
  rw [← UInt32.toNat_inj, hmod]
  constructor
  · intro h
    omega
  · exact Nat.mod_eq_of_lt

theorem lt_of_mask_eq {word r : UInt32} (h : word &&& 0x0FFFFFFF = r) : r.toNat < 2 ^ 28 := by
  rw [← mask_eq_self, ← h, UInt32.and_assoc, UInt32.and_self]

theorem setWord_self (cache : ℕ → UInt32) (e : ℕ) (value : UInt32) :
    setWord cache e value e &&& 0x0FFFFFFF = value &&& 0x0FFFFFFF := by
  rw [setWord, Function.update_self, mask_word]

theorem setWord_of_ne (cache : ℕ → UInt32) {e e' : ℕ} (value : UInt32) (h : e ≠ e') :
    setWord cache e' value e = cache e := Function.update_of_ne h ..

/-- The mark of a new cluster is not the entry of a free one. -/
theorem marked_ne_zero (cache : ℕ → UInt32) (e : ℕ) :
    setWord cache e 0x0FFFFFFF e &&& 0x0FFFFFFF ≠ 0 := by
  rw [setWord_self]
  decide

/-- A call whose allocation fails does no more. -/
theorem fatCall_of_zero (h : (fat32AllocCluster dev st).1 = 0) (c : FatCall) :
    (fatCall dev st c).1 = 0 ∧ (fatCall dev st c).2 = (fat32AllocCluster dev st).2 := by
  cases c with
  | alloc => exact ⟨h, rfl⟩
  | extend lastCluster => simp only [fatCall, fat32ExtendChain, h, if_true, and_self]

theorem fat32AllocCluster_eq_zero {c : FatCall} (h : (fatCall dev st c).1 = 0) :
    (fat32AllocCluster dev st).1 = 0 := by
  cases c with
  | alloc => exact h
  | extend lastCluster =>
    by_contra hne
    rw [fatCall, fat32ExtendChain_of_ne_zero hne] at h
    exact hne h

/-- A call that finds nothing returns 0 and leaves the cache. -/
theorem agrees_of_nothing (h : st.fs.fatCacheValid = true → firstFree st = none) (c : FatCall) :
    Agrees dev ⟨st, image⟩ c := by
  obtain ⟨hzero, hcache⟩ := @fat32AllocCluster_nothing dev st h
  have hcall := fatCall_of_zero hzero c
  constructor
  · intro _
    rw [hcall.2, hcache]
  · exact fun hne => absurd hcall.1 hne

/-- A write that fails leaves the mark in the cache. -/
theorem TakesFirst.not_agrees {r : UInt32} (h : TakesFirst dev st r)
    (hfree : st.fatCache r.toNat &&& 0x0FFFFFFF = 0) (hok : dev.ok st.transfers ≠ true)
    (c : FatCall) : ¬ Agrees dev ⟨st, image⟩ c := by
  intro hagrees
  have hzero : (fat32AllocCluster dev st).1 = 0 := h.result.trans (if_neg hok)
  have hcall := fatCall_of_zero hzero c
  have hsame := hagrees.unchanged hcall.1
  rw [hcall.2, h.fatCache] at hsame
  have hmark := marked_ne_zero st.fatCache r.toNat
  rw [hsame] at hmark
  exact hmark hfree

/-- An allocation whose write succeeds. -/
theorem TakesFirst.alloc_agrees_iff {r : UInt32} (h : TakesFirst dev st r) (hr : r ≠ 0)
    (hok : dev.ok st.transfers = true) :
    Agrees dev ⟨st, image⟩ .alloc ↔ r.toNat < fatEntries st := by
  have hfirst : (fatCall dev st .alloc).1 = r := h.result.trans (if_pos hok)
  have himage : imageAfter dev st image .alloc = setWord st.fatCache r.toNat 0x0FFFFFFF :=
    h.recordWrite_eq.trans (if_pos hok)
  constructor
  · intro hagrees
    have hin := hagrees.contained (hfirst.trans_ne hr)
    rw [hfirst] at hin
    exact hin.1.1
  · intro hlt
    constructor
    · exact fun hzero => absurd (hfirst.symm.trans hzero) hr
    · intro _
      rw [hfirst, himage]
      exact ⟨⟨hlt, marked_ne_zero _ _⟩, trivial, fun _ heq => by cases heq⟩

/-- A link is in the image after the second write, or was in the cache before it. -/
theorem TakesFirst.extend_agrees_iff {r : UInt32} (h : TakesFirst dev st r)
    (hvalid : st.fs.fatCacheValid = true) (hr : r ≠ 0) (hok : dev.ok st.transfers = true) :
    Agrees dev ⟨st, image⟩ (.extend lastCluster) ↔
      r.toNat < fatEntries st ∧ lastCluster.toNat < fatEntries st ∧
        LinkLands dev st r.toNat (.extend lastCluster) := by
  obtain ⟨hfirst, himage⟩ := @TakesFirst.extend_eq dev st image lastCluster r h hvalid hr hok
  have hlink : imageAfter dev st image (.extend lastCluster) lastCluster.toNat &&& 0x0FFFFFFF = r ↔
      LinkLands dev st r.toNat (.extend lastCluster) := by
    rw [himage, LinkLands, UInt32.ofNat_toNat]
    by_cases hsecond : dev.ok (st.transfers + 1) = true
    · rw [if_pos hsecond, setWord_self, mask_eq_self]
      constructor
      · exact fun hlt => Or.inl ⟨hsecond, hlt⟩
      · rintro (⟨-, hlt⟩ | hold)
        · exact hlt
        · exact lt_of_mask_eq hold
    · rw [if_neg hsecond]
      constructor
      · exact Or.inr
      · rintro (⟨hok', -⟩ | hold)
        · exact absurd hok' hsecond
        · exact hold
  constructor
  · intro hagrees
    have hin := hagrees.contained (hfirst.trans_ne hr)
    obtain ⟨⟨hlt, -⟩, hlast, hentry⟩ := hin
    change (fat32ExtendChain dev st lastCluster).1.toNat < _ at hlt
    have hentry : _ = (fat32ExtendChain dev st lastCluster).1 := hentry lastCluster rfl
    rw [hfirst] at hlt hentry
    exact ⟨hlt, hlast, hlink.mp hentry⟩
  · rintro ⟨hlt, hlast, hlands⟩
    have hentry := hlink.mpr hlands
    constructor
    · exact fun hzero => absurd (hfirst.symm.trans hzero) hr
    · intro _
      refine ⟨⟨?_, ?_⟩, hlast, ?_⟩
      · change (fat32ExtendChain dev st lastCluster).1.toNat < _
        rwa [hfirst]
      · change imageAfter dev st image (.extend lastCluster)
          (fat32ExtendChain dev st lastCluster).1.toNat &&& 0x0FFFFFFF ≠ 0
        rw [hfirst]
        -- a cluster that is linked to itself loses its mark
        by_cases hself : r.toNat = lastCluster.toNat
        · rwa [hself, hentry]
        · rw [himage]
          split
          · rw [setWord_of_ne _ _ hself]
            exact marked_ne_zero _ _
          · exact marked_ne_zero _ _
      · rintro last heq
        obtain rfl := FatCall.extend.inj heq
        exact hentry.trans hfirst.symm

theorem agrees_iff (s : Tracked) (c : FatCall) : Agrees dev s c ↔ Lands dev s.vol c := by
  obtain ⟨st, image⟩ := s
  by_cases hnothing : st.fs.fatCacheValid = true → firstFree st = none
  · constructor
    · intro _ hvalid r hfree
      rw [hnothing hvalid] at hfree
      cases hfree
    · exact fun _ => agrees_of_nothing hnothing c
  · rw [Classical.not_imp] at hnothing
    obtain ⟨hvalid, hsome⟩ := hnothing
    obtain ⟨e, hfree⟩ := Option.ne_none_iff_exists'.mp hsome
    obtain ⟨r, rfl, hr, htakes⟩ := @fat32AllocCluster_takesFirst dev st hvalid e hfree
    have hlands : Lands dev st c ↔ dev.ok st.transfers = true ∧ r.toNat < fatEntries st ∧
        LastInside st c ∧ LinkLands dev st r.toNat c := by
      constructor
      · exact fun h => h hvalid _ hfree
      · intro h _ e' hfree'
        rwa [Option.some.inj (hfree'.symm.trans hfree)]
    rw [hlands]
    by_cases hok : dev.ok st.transfers = true
    · cases c with
      | alloc =>
        rw [htakes.alloc_agrees_iff hr hok]
        exact ⟨fun hlt => ⟨hok, hlt, trivial, trivial⟩, fun h => h.2.1⟩
      | extend lastCluster =>
        rw [htakes.extend_agrees_iff hvalid hr hok]
        exact ⟨fun h => ⟨hok, h⟩, fun h => h.2⟩
    · constructor
      · exact fun h => absurd h (htakes.not_agrees (firstFree_eq_some hfree).2.2.1 hok c)
      · exact fun h => absurd h.1 hok

/-! ## Runs -/

/-- A device on which every transfer succeeds, and a volume whose FAT fits the cache. -/
theorem lands_of_fits (hok : ∀ n, dev.ok n = true) (hfit : FitsCache st.fs.bs) {c : FatCall}
    (hlast : LastInside st c) : Lands dev st c := by
  intro hvalid r hfree
  have hsize := hfit.size_le
  have hlt : r < fatEntries st := by
    apply changedEntries_lt hfit hlast
    cases c with
    | alloc => simp only [changedEntries, hfree, Option.toList_some, List.mem_singleton]
    | extend lastCluster =>
      simp only [changedEntries, hfree, Option.toList_some, List.mem_cons, true_or, or_true]
  refine ⟨hok _, hlt, hlast, ?_⟩
  cases c with
  | alloc => trivial
  | extend lastCluster =>
    left
    refine ⟨hok _, ?_⟩
    unfold fatEntries at hlt
    omega

theorem fat32AllocCluster_fs : (fat32AllocCluster dev st).2.fs = st.fs := by
  by_cases hvalid : st.fs.fatCacheValid = true
  · rcases @fat32AllocCluster_cases dev st hvalid with ⟨-, accesses, heq⟩ | ⟨c, accesses, -, -, heq⟩
    · rw [heq]
      rfl
    · rw [heq]
      exact (markCluster_fatCache hvalid accesses c).1
  · rw [fat32AllocCluster, if_pos hvalid]

theorem fatCall_fs (c : FatCall) : (fatCall dev st c).2.fs = st.fs := by
  cases c with
  | alloc => exact fat32AllocCluster_fs
  | extend lastCluster =>
    by_cases hzero : (fat32AllocCluster dev st).1 = 0
    · rw [(fatCall_of_zero hzero (.extend lastCluster)).2, fat32AllocCluster_fs]
    · rw [fatCall, fat32ExtendChain_of_ne_zero hzero, ← @fat32AllocCluster_fs dev st]
      exact (fat32SetFatEntry_rest _ _).1

/-- On a device that never fails and a FAT that fits the cache every run agrees. -/
theorem always_agrees_of_fits (hok : ∀ n, dev.ok n = true) {s : Tracked}
    (hfit : FitsCache s.vol.fs.bs) {calls : List FatCall}
    (hlast : ∀ c ∈ calls, LastInside s.vol c) :
    Always (trackedStep dev) (Agrees dev) s calls := by
  induction calls generalizing s with
  | nil => trivial
  | cons c calls ih =>
    refine ⟨(agrees_iff s c).mpr (lands_of_fits hok hfit (hlast c List.mem_cons_self)),
      fun t ht => ?_⟩
    obtain rfl := Option.some.inj ht
    have hfs := @fatCall_fs dev s.vol c
    apply ih
    · rwa [hfs]
    · intro d hd
      have hd := hlast d (List.mem_cons_of_mem c hd)
      cases d with
      | alloc => trivial
      | extend lastCluster =>
        rw [LastInside, fatEntries, hfs]
        exact hd

/-- In a run of calls the results, the cached FAT and the last image agree throughout exactly when
every write that the calls rely on succeeds and lands in the FAT. -/
theorem images_agree_iff (dev : Device) (s : Tracked) (calls : List FatCall) :
    Always (trackedStep dev) (Agrees dev) s calls ↔
      Always (trackedStep dev) (fun t c => Lands dev t.vol c) s calls := by
  apply always_iff (I := fun _ => True) (D := fun _ _ => True)
  · exact fun t c _ _ => agrees_iff t c
  · exact fun _ _ _ _ _ _ _ => trivial
  · trivial
  · exact Always.of_forall (fun _ _ => trivial) s calls

/-! ## The image and the disk -/

/-- The first FAT on the disk is the last image. -/
def Shown (s : Tracked) : Prop := ∀ e < fatEntries s.vol, diskFat s.vol 0 e = s.image e

theorem imageAfter_of_zero (h : (fat32AllocCluster dev st).1 = 0) (c : FatCall) :
    imageAfter dev st image c = recordWrite dev st (fat32AllocCluster dev st).2 image := by
  cases c with
  | alloc => rfl
  | extend lastCluster => rw [imageAfter, if_pos h]

/-- A call that returns a cluster on a device that never fails has written its last cache. -/
theorem imageAfter_of_ne_zero {c : FatCall} (hok : ∀ n, dev.ok n = true)
    (hr : (fatCall dev st c).1 ≠ 0) :
    imageAfter dev st image c = (fatCall dev st c).2.fatCache := by
  have halloc : (fat32AllocCluster dev st).1 ≠ 0 := fun hzero => hr (fatCall_of_zero hzero c).1
  cases c with
  | alloc =>
    obtain ⟨r, -, -, -, -, htransfers⟩ := fat32AllocCluster_ok halloc
    have hne : (fat32AllocCluster dev st).2.transfers ≠ st.transfers := by
      rw [htransfers]
      exact Nat.succ_ne_self _
    rw [imageAfter, recordWrite, if_neg hne, if_pos (hok _)]
    rfl
  | extend lastCluster =>
    rw [imageAfter, if_neg halloc, fatCall, fat32ExtendChain_of_ne_zero halloc,
      recordWrite_writeFat (fat32SetFatEntry_rest _ _).2, if_pos (hok _)]
    rfl

theorem trackedStep_shown (hok : ∀ n, dev.ok n = true) {s t : Tracked} {c : FatCall}
    (hs : Shown s) (hstep : trackedStep dev s c = some t) : Shown t := by
  obtain rfl := Option.some.inj hstep
  intro e he
  by_cases hr : (fatCall dev s.vol c).1 = 0
  · obtain ⟨accesses, heq⟩ := fatCall_zero (fun n _ => hok n) hr
    have hzero := fat32AllocCluster_eq_zero hr
    have hsame : (fat32AllocCluster dev s.vol).2.transfers = s.vol.transfers := by
      rw [← (fatCall_of_zero hzero c).2, heq]
      rfl
    rw [imageAfter_of_zero hzero, recordWrite, if_pos hsame, heq]
    rw [heq] at he
    exact hs e he
  · obtain ⟨hflush, -⟩ := fatCall_flushed (fun n _ => hok n) hr
    rw [fatEntries, hflush.fs] at he
    rw [imageAfter_of_ne_zero hok hr]
    exact hflush.inside e he

/-- On a device that never fails the image is what the disk holds after every run. -/
theorem run_shown (hok : ∀ n, dev.ok n = true) {s t : Tracked} {calls : List FatCall}
    (hrun : Run (fun s c t => trackedStep dev s c = some t) s calls t) (hs : Shown s) : Shown t :=
  hrun.invariant (fun _ _ _ hs hstep => trackedStep_shown hok hs hstep) hs

/-! ## Writes that fail -/

/-- A device whose transfers fail from number `n` on. -/
def failsFrom (n : ℕ) : Device := ⟨fun k => k < n, fun _ _ => 0, fun _ _ => 0⟩

/-- The volume with one FAT, and its cache as the image. -/
def smallTracked : Tracked := ⟨(smallVolume 1).2.2, (smallVolume 1).2.2.fatCache⟩

/-- When the write of an allocation fails, the cluster is marked and 0 returned; when the second
write of an extension fails, the cluster is returned and the disk has no link to it. -/
theorem failedWrites_not_agree :
    (fatCall (failsFrom 2) smallTracked.vol .alloc).1 = 0 ∧
      smallTracked.vol.fatCache 3 = 0 ∧
      (fatCall (failsFrom 2) smallTracked.vol .alloc).2.fatCache 3 = 0x0FFFFFFF ∧
      ¬ Always (trackedStep (failsFrom 2)) (Agrees (failsFrom 2)) smallTracked [.alloc] ∧
      (fatCall (failsFrom 3) smallTracked.vol (.extend 2)).1 = 3 ∧
      imageAfter (failsFrom 3) smallTracked.vol smallTracked.image (.extend 2) 2 = 0x0FFFFFFF ∧
      ¬ Always (trackedStep (failsFrom 3)) (Agrees (failsFrom 3)) smallTracked [.extend 2] := by
  have hzero : (fatCall (failsFrom 2) smallTracked.vol .alloc).1 = 0 := by decide +kernel
  have hfree : smallTracked.vol.fatCache 3 = 0 := by decide +kernel
  have hmark : (fatCall (failsFrom 2) smallTracked.vol .alloc).2.fatCache 3 = 0x0FFFFFFF := by
    decide +kernel
  have hthree : (fatCall (failsFrom 3) smallTracked.vol (.extend 2)).1 = 3 := by decide +kernel
  have hend : imageAfter (failsFrom 3) smallTracked.vol smallTracked.image (.extend 2) 2 =
      0x0FFFFFFF := by
    decide +kernel
  refine ⟨hzero, hfree, hmark, fun h => ?_, hthree, hend, fun h => ?_⟩
  · have hsame := congrFun (h.1.unchanged hzero) 3
    rw [hmark, hfree] at hsame
    exact absurd hsame (by decide)
  · have hlink := (h.1.contained (by rw [hthree]; decide)).2.2 2 rfl
    rw [hthree] at hlink
    change imageAfter (failsFrom 3) smallTracked.vol smallTracked.image (.extend 2) 2 &&& _ = 3
      at hlink
    rw [hend] at hlink
    exact absurd hlink (by decide)

end Rhoudveine.Fat32
