import Rhoudveine.Fat32.Cycles
import Rhoudveine.Fat32.ParentLinks

/-!
# The place for a new entry

Where `fat32_create_entry` puts its records in a directory that has free entries at its end only,
and what it leaves of the others.
-/

namespace Rhoudveine.Fat32
open Fs Mm LittleEndian Search

/-! ## Free entries of a cluster -/

variable {buf : ℕ → UInt8} {a needed entries rounds j n : ℕ}

/-- Only a zero is taken for a free entry. -/
theorem freeSlot_iff (buf : ℕ → UInt8) (i : ℕ) : freeSlot buf i = true ↔ recordAt buf i 0 = 0 := by
  rw [freeSlot, Bool.or_eq_true, decide_eq_true_iff, decide_eq_true_iff, charValue_eq_zero]
  exact or_iff_left (charValue_ne _)

theorem freeRun_zeros (h : ∀ i, j ≤ i → i < j + rounds → recordAt buf i 0 = 0) (hn : n < needed) :
    freeRun buf needed rounds j n = decide (needed ≤ n + rounds) := by
  induction rounds generalizing j n with
  | zero => exact (decide_eq_false (by omega)).symm
  | succ rounds ih =>
    have hfree : freeSlot buf j = true := (freeSlot_iff buf j).mpr (h j le_rfl (by omega))
    rw [freeRun, if_pos hfree]
    by_cases hlast : n + 1 = needed
    · rw [if_pos hlast]
      exact (decide_eq_true (by omega)).symm
    · rw [if_neg hlast, ih (fun i hi hi' => h i (by omega) (by omega)) (by omega)]
      exact decide_eq_decide.mpr (by omega)

/-- The free entries are those from number `a` on. -/
theorem findSlots_zeros (hneeded : 0 < needed) (hused : ∀ i < a, recordAt buf i 0 ≠ 0)
    (hfree : ∀ i, a ≤ i → i < entries → recordAt buf i 0 = 0) :
    findSlots buf entries needed = if a + needed ≤ entries then some a else none := by
  have hslot (i : ℕ) (hi : i < a) :
      (freeSlot buf i && freeRun buf needed (entries - i) i 0) = false := by
    have hno : freeSlot buf i = false :=
      Bool.eq_false_iff.mpr fun h => hused i hi ((freeSlot_iff buf i).mp h)
    rw [hno, Bool.false_and]
  have hrun (i : ℕ) (hi : a ≤ i) (hlt : i < entries) :
      (freeSlot buf i && freeRun buf needed (entries - i) i 0) = decide (i + needed ≤ entries) := by
    rw [(freeSlot_iff buf i).mpr (hfree i hi hlt), Bool.true_and,
      freeRun_zeros (fun k hk hk' => hfree k (by omega) (by omega)) hneeded]
    exact decide_eq_decide.mpr (by omega)
  unfold findSlots
  split_ifs with hroom
  · apply firstSome_eq_some.mpr
    refine ⟨a, Nat.zero_le a, by omega, ?_, fun i _ hi => ?_⟩
    · rw [hrun a le_rfl (by omega), decide_eq_true hroom]
      rfl
    · rw [hslot i hi]
      rfl
  · apply firstSome_eq_none.mpr
    intro i _ hi
    by_cases hia : i < a
    · rw [hslot i hia]
      rfl
    · rw [hrun i (not_lt.mp hia) (by omega), decide_eq_false (by omega)]
      rfl

/-! ## The records of clusters -/

variable {dev : Device} {st st' t : Volume} {c d target : UInt32}
  {chain chain' xs ys ws zs : List UInt32}
  {used free : List Record}

theorem length_clusterRecords (st : Volume) (c : UInt32) :
    (clusterRecords st c).length = st.fs.bs.entriesPerCluster.toNat := by
  rw [clusterRecords, List.length_map, List.length_range]

theorem getElem_clusterRecords {i : ℕ} (hi : i < (clusterRecords st c).length) :
    (clusterRecords st c)[i] = recordAt (fun k => st.disk (clusterStart st.fs c + k)) i :=
  (List.getElem_map _).trans (congrArg _ (List.getElem_range _))

theorem length_dirRecords (st : Volume) (chain : List UInt32) :
    (dirRecords st chain).length = chain.length * st.fs.bs.entriesPerCluster.toNat := by
  induction chain with
  | nil => rw [List.length_nil, Nat.zero_mul]; rfl
  | cons c chain ih =>
    have hcons : dirRecords st (c :: chain) = clusterRecords st c ++ dirRecords st chain := rfl
    rw [hcons, List.length_append, ih, length_clusterRecords, List.length_cons, Nat.succ_mul,
      Nat.add_comm]

theorem dirRecords_append (st : Volume) (xs ys : List UInt32) :
    dirRecords st (xs ++ ys) = dirRecords st xs ++ dirRecords st ys := List.flatMap_append

theorem clusterRecords_congr (hmounted : Mounted st.fs) (hfs : st'.fs = st.fs)
    (hbytes : ∀ k < st.fs.bs.clusterSize.toNat, clusterByte st' c k = clusterByte st c k) :
    List.Forall₂ Record.Same (clusterRecords st' c) (clusterRecords st c) := by
  unfold clusterRecords
  rw [hfs, List.forall₂_map_left_iff, List.forall₂_map_right_iff, List.forall₂_same]
  intro i hi k hk
  have hlt := List.mem_range.mp hi
  rw [hmounted.toNat_entriesPerCluster] at hlt
  have hbyte := hbytes (32 * i + k) (by rw [hmounted.toNat_clusterSize]; omega)
  rwa [clusterByte, clusterByte, hfs] at hbyte

theorem dirRecords_congr (hmounted : Mounted st.fs) (hfs : st'.fs = st.fs)
    (hbytes : ∀ c ∈ chain, ∀ k < st.fs.bs.clusterSize.toNat,
      clusterByte st' c k = clusterByte st c k) :
    List.Forall₂ Record.Same (dirRecords st' chain) (dirRecords st chain) := by
  induction chain with
  | nil => exact .nil
  | cons c chain ih =>
    obtain ⟨hfirst, hrest⟩ := List.forall_mem_cons.mp hbytes
    exact List.rel_append (clusterRecords_congr hmounted hfs hfirst) (ih hrest)

/-- The search in a cluster whose free entries are its last ones. -/
theorem freeSlots_eq (hneeded : 0 < needed) (h : clusterRecords st c = used ++ free)
    (hused : ∀ r ∈ used, r 0 ≠ 0) (hfree : ∀ r ∈ free, r 0 = 0) :
    freeSlots st c needed =
      if used.length + needed ≤ st.fs.bs.entriesPerCluster.toNat then some used.length
      else none := by
  have hlen := congrArg List.length h
  rw [length_clusterRecords, List.length_append] at hlen
  apply findSlots_zeros hneeded
  · intro i hi
    have hlt : i < (used ++ free).length := by
      rw [List.length_append]
      omega
    have hget : (used ++ free)[i] = used[i] := List.getElem_append_left hi
    simp only [← h, getElem_clusterRecords] at hget
    rw [hget]
    exact hused _ (List.getElem_mem hi)
  · intro i hi hlt
    have hlt' : i < (used ++ free).length := by
      rw [List.length_append]
      omega
    have hindex : i - used.length < free.length := by omega
    have hget : (used ++ free)[i] = free[i - used.length] := List.getElem_append_right hi
    simp only [← h, getElem_clusterRecords] at hget
    rw [hget]
    exact hfree _ (List.getElem_mem _)

/-! ## Clusters that are left alone -/

/-- A mounted volume as the format has it: the FATs lie before the clusters, sectors have 32-bit
numbers, and the numbers of clusters are no end marks. -/
structure Formatted (fs : Fat32Fs) : Prop where
  mounted : Mounted fs
  offsets : fs = Fat32Fs.ofBootSector fs.bs fs.fatCachePage
  copies : fs.bs.numFats ≠ 0
  sectors : fs.bs.reservedSectors.toNat + fs.bs.numFats.toNat * fs.bs.fatSize32.toNat +
    fs.bs.totalSectors32.toNat ≤ 2 ^ 32
  clusters : fs.bs.totalClusters ≤ endOfChain

/-- The first FAT is not written over a cluster. -/
theorem Formatted.fatOffset_le (h : Formatted st.fs) (hc : OnVolume st.fs c) :
    fatOffset st 1 ≤ clusterStart st.fs c := by
  have hstart : st.fs.fatStartSector.toNat = st.fs.bs.reservedSectors.toNat := by
    have hoffsets := congrArg (fun f => f.fatStartSector.toNat) h.offsets
    exact hoffsets.trans (UInt16.toNat_toUInt32 _)
  have hpos := h.mounted.sectors_pos
  have hbound := hc.offset.2
  have hsectors := h.sectors
  have hdata : st.fs.dataStartSector.toNat =
      st.fs.bs.reservedSectors.toNat + st.fs.bs.numFats.toNat * st.fs.bs.fatSize32.toNat := by
    have hoffsets := congrArg (fun f => f.dataStartSector.toNat) h.offsets
    dsimp only [Fat32Fs.ofBootSector] at hoffsets
    rw [hoffsets, UInt32.toNat_add, UInt32.toNat_mul, UInt16.toNat_toUInt32, UInt8.toNat_toUInt32,
      Nat.mod_eq_of_lt (show _ < 2 ^ 32 by omega), Nat.mod_eq_of_lt (by omega)]
  have hone : 1 ≤ st.fs.bs.numFats.toNat :=
    Nat.one_le_iff_ne_zero.mpr fun hzero => h.copies (UInt8.toNat_inj.mp hzero)
  have harea := Nat.mul_le_mul_right st.fs.bs.fatSize32.toNat hone
  rw [hc.clusterStart_eq, hdata, Nat.mod_eq_of_lt (by omega), fatOffset, hstart]
  omega

/-- The clusters of a list keep their bytes. -/
structure SameClusters (st st' : Volume) (chain : List UInt32) : Prop where
  fs : st'.fs = st.fs
  bytes : ∀ c ∈ chain, ∀ k < st.fs.bs.clusterSize.toNat, clusterByte st' c k = clusterByte st c k

theorem SameVolume.sameClusters (h : SameVolume st st') (chain : List UInt32) :
    SameClusters st st' chain := by
  refine ⟨h.fs, fun c _ k _ => ?_⟩
  rw [clusterByte, clusterByte, h.fs, h.disk]

theorem SameClusters.trans (h : SameClusters st st' chain) (h' : SameClusters st' t chain) :
    SameClusters st t chain := by
  refine ⟨h'.fs.trans h.fs, fun c hc k hk => ?_⟩
  rw [h'.bytes c hc k (by rwa [h.fs]), h.bytes c hc k hk]

theorem SameClusters.records (hmounted : Mounted st.fs) (h : SameClusters st st' chain) :
    List.Forall₂ Record.Same (dirRecords st' chain) (dirRecords st chain) :=
  dirRecords_congr hmounted h.fs h.bytes

/-- The FAT is written before the clusters. -/
theorem sameClusters_of_flushed (hformat : Formatted st.fs) (hfs : st'.fs = st.fs)
    (hdisk : ∀ a, fatOffset st 1 ≤ a → st'.disk a = st.disk a)
    (hchain : ∀ c ∈ chain, OnVolume st.fs c) : SameClusters st st' chain := by
  refine ⟨hfs, fun c hc k _ => ?_⟩
  rw [clusterByte, clusterByte, hfs]
  exact hdisk _ ((hformat.fatOffset_le (hchain c hc)).trans (Nat.le_add_right _ k))

/-- Writing another cluster. -/
theorem sameClusters_of_write (hmounted : Mounted st.fs) (hd : OnVolume st.fs d)
    (hchain : ∀ c ∈ chain, OnVolume st.fs c ∧ c ≠ d) (hfs : st'.fs = st.fs) {buf : ℕ → UInt8}
    (hdisk : ∀ a, st'.disk a = if clusterStart st.fs d ≤ a ∧
        a < clusterStart st.fs d + 512 * st.fs.bs.sectorsPerCluster.toNat then
      buf (a - clusterStart st.fs d) else st.disk a) : SameClusters st st' chain := by
  refine ⟨hfs, fun c hc k hk => ?_⟩
  obtain ⟨hvolume, hne⟩ := hchain c hc
  have hout : ¬ (clusterStart st.fs d ≤ clusterStart st.fs c + k ∧
      clusterStart st.fs c + k < clusterStart st.fs d +
        512 * st.fs.bs.sectorsPerCluster.toNat) := by
    rw [hmounted.toNat_clusterSize] at hk
    rintro ⟨hlow, hhigh⟩
    obtain ⟨i, hi⟩ := Nat.exists_eq_add_of_le hlow
    exact clusterStart_ne hmounted hvolume hd hne hk (show i < _ by omega) hi
  rw [clusterByte, clusterByte, hfs, hdisk, if_neg hout]

/-- A new cluster does not change those in use. -/
theorem fat32AllocCluster_clusters (hformat : Formatted st.fs)
    (h : fat32AllocCluster dev st = (d, st')) (hd : d ≠ 0)
    (hchain : ∀ c ∈ chain, OnVolume st.fs c) : SameClusters st st' chain := by
  have hne : (fat32AllocCluster dev st).1 ≠ 0 := by rwa [h]
  obtain ⟨-, -, -, hflush, -, -⟩ := fat32AllocCluster_ok hne
  rw [h] at hflush
  exact sameClusters_of_flushed hformat hflush.fs (fun a ha => hflush.outside a (Or.inr ha)) hchain

/-! ## The chain of a directory -/

theorem isChain_iff_linked : IsChain st c chain ↔
    Linked (successor st) (if endOfChain ≤ c then none else some c) chain := by
  induction chain generalizing c with
  | nil =>
    unfold IsChain Linked
    split
    · rename_i hend
      exact iff_of_true hend rfl
    · rename_i hend
      exact iff_of_false hend (by simp)
  | cons x xs ih =>
    unfold IsChain Linked
    split
    · rename_i hend
      exact iff_of_false (fun h => UInt32.not_le.mpr h.1 hend) (by simp)
    · rename_i hend
      rw [Option.some.injEq, ih]
      constructor
      · rintro ⟨-, rfl, hrest⟩
        exact ⟨rfl, hrest⟩
      · rintro ⟨rfl, hrest⟩
        exact ⟨UInt32.not_le.mp hend, rfl, hrest⟩

/-- The clusters of a directory are clusters of the volume. -/
structure DirChain (st : Volume) (first : UInt32) (chain : List UInt32) : Prop where
  isChain : IsChain st first chain
  onVolume : ∀ c ∈ chain, OnVolume st.fs c

namespace DirChain

variable {first : UInt32}

theorem linked (h : DirChain st first chain) :
    Linked (successor st) (if endOfChain ≤ first then none else some first) chain :=
  isChain_iff_linked.mp h.isChain

theorem nodup (h : DirChain st first chain) : chain.Nodup := h.linked.nodup

theorem link_ne_zero (h : DirChain st first chain) (hc : c ∈ chain) : fatLink st c ≠ 0 := by
  intro hzero
  have hnext : successor st c = some 0 := by
    rw [successor, hzero]
    rfl
  exact absurd (h.onVolume 0 (h.linked.next_mem hc hnext)).1 (by decide)

theorem congr (h : DirChain st first chain) (hfs : st'.fs = st.fs)
    (hlinks : ∀ c ∈ chain, fatLink st' c = fatLink st c) : DirChain st' first chain := by
  refine ⟨isChain_iff_linked.mpr (h.linked.congr fun c hc => successor_congr (hlinks c hc)), ?_⟩
  rw [hfs]
  exact h.onVolume

theorem same (h : DirChain st first chain) (hsame : SameVolume st st') :
    DirChain st' first chain := h.congr hsame.fs fun c _ => hsame.fatLink c

end DirChain

/-- The new cluster comes last. -/
theorem fat32ExtendChain_chain {first : UInt32} (hok : ∀ n, dev.ok n = true)
    (hformat : Formatted st.fs) (hchain : DirChain st first (xs ++ [c]))
    (h : fat32ExtendChain dev st c = (d, st')) (hd : d ≠ 0) :
    DirChain st' first (xs ++ [c, d]) ∧ SameClusters st st' (xs ++ [c]) := by
  unfold fat32ExtendChain at h
  generalize hout : fat32AllocCluster dev st = out at h
  obtain ⟨r, t⟩ := out
  dsimp only at h
  split at h
  · obtain ⟨rfl, -⟩ := Prod.mk.inj h
    exact absurd rfl hd
  · obtain ⟨rfl, rfl⟩ := Prod.mk.inj h
    have hmarked := fat32AllocCluster_marked hout hd
    have hcached : t.fs.fatCacheValid = true := by
      rw [hmarked.fs]
      exact hformat.mounted.cached
    have hset := fat32SetFatEntry_valid hcached c r
    have hflush := @writeFat_flushed dev (fat32SetFatEntry t c r) (hok _)
    generalize hu : (writeFat dev (fat32SetFatEntry t c r)).2 = u at hflush
    have hcache : u.fatCache = setWord t.fatCache c.toNat r := by
      rw [← hu, hset]
      rfl
    have hfs : u.fs = t.fs := by
      rw [hflush.fs, hset]
      rfl
    have hnotin : r ∉ xs ++ [c] := fun hmem => hchain.link_ne_zero hmem hmarked.free
    constructor
    · constructor
      · have hinsert := hchain.linked.insert hnotin
        have hlt : r < endOfChain := by
          have hclusters := UInt32.le_iff_toNat_le.mp hformat.clusters
          have hvolume := UInt32.lt_iff_toNat_lt.mp hmarked.onVolume.2
          exact UInt32.lt_iff_toNat_lt.mpr (hvolume.trans_le hclusters)
        rw [hchain.linked.last] at hinsert
        rw [isChain_iff_linked, successor_link hlt hcache, successor_end hmarked.fatCache]
        exact hinsert
      · intro e he
        rw [hfs, hmarked.fs]
        rw [List.append_cons, List.mem_append, List.mem_singleton] at he
        rcases he with he | rfl
        · exact hchain.onVolume e he
        · exact hmarked.onVolume
    · refine (fat32AllocCluster_clusters hformat hout hd hchain.onVolume).trans ?_
      apply sameClusters_of_flushed (by rwa [hmarked.fs]) hfs
      · intro a ha
        have hkeep := hflush.outside a (Or.inr (by rw [hset]; exact ha))
        rw [hkeep, hset]
        rfl
      · rw [hmarked.fs]
        exact hchain.onVolume

/-! ## The place -/

theorem dirRecords_middle (st : Volume) (xs : List UInt32) (c : UInt32) (ys : List UInt32) :
    dirRecords st (xs ++ c :: ys) =
      dirRecords st xs ++ (clusterRecords st c ++ dirRecords st ys) := by
  rw [dirRecords_append]
  rfl

/-- The used and the free entries of a cluster in the middle. -/
theorem clusterRecords_split (h : dirRecords st (xs ++ c :: ys) = used ++ free) {entries : ℕ}
    (hentries : st.fs.bs.entriesPerCluster.toNat = entries) :
    ∃ mine left, clusterRecords st c = mine ++ left ∧ (∀ r ∈ mine, r ∈ used) ∧
      (∀ r ∈ left, r ∈ free) ∧ mine.length = min entries (used.length - xs.length * entries) := by
  refine ⟨(used.drop (xs.length * entries)).take entries,
    (free.drop (xs.length * entries - used.length)).take
      (entries - (used.drop (xs.length * entries)).length), ?_,
    fun r hr => List.mem_of_mem_drop (List.mem_of_mem_take hr),
    fun r hr => List.mem_of_mem_drop (List.mem_of_mem_take hr), ?_⟩
  · have hlen := length_dirRecords st xs
    have hlen' := length_clusterRecords st c
    rw [hentries] at hlen hlen'
    rw [← List.take_append, ← List.drop_append, ← h, dirRecords_middle, ← hlen,
      List.drop_left, ← hlen', List.take_left]
  · rw [List.length_take, List.length_drop]

/-- The place of a new entry in the chain that the search leaves: the records before it are as they
were, and the one behind it is free. -/
structure Spot (st st' : Volume) (first : UInt32) (chain chain' : List UInt32) (needed : ℕ)
    (target : UInt32) (start place : ℕ) : Prop where
  fs : st'.fs = st.fs
  links : DirChain st' first chain'
  length : chain'.length ≤ chain.length + 1
  target : ∃ ws zs, chain' = ws ++ target :: zs ∧
    place = ws.length * st.fs.bs.entriesPerCluster.toNat + start ∧
      (start + needed ≤ st.fs.bs.entriesPerCluster.toNat ∨ start = 0 ∧ zs = [])
  place_le : place ≤ (dirRecords st chain).length
  before : List.Forall₂ Record.Same ((dirRecords st' chain').take place)
    ((dirRecords st chain).take place)
  behind : ∀ r ∈ ((dirRecords st' chain').drop (place + needed)).head?, r 0 = 0

theorem Record.Same.refl (r : Record) : r.Same r := fun _ _ => rfl

theorem same_refl (rs : List Record) : List.Forall₂ Record.Same rs rs :=
  List.forall₂_same.mpr fun r _ => .refl r

theorem same_trans {rs rs' rs'' : List Record} (h : List.Forall₂ Record.Same rs rs')
    (h' : List.Forall₂ Record.Same rs' rs'') : List.Forall₂ Record.Same rs rs'' := by
  induction h generalizing rs'' with
  | nil => exact h'
  | cons hr _ ih =>
    cases h' with
    | cons hr' hrest => exact .cons (hr.trans hr') (ih hrest)

/-- In a cluster of the chain. -/
theorem spot_inside {vol : Volume} {first : UInt32} {start : ℕ}
    (hchain : DirChain vol first (xs ++ c :: ys)) (hsame : SameVolume vol st)
    (hrecords : dirRecords vol (xs ++ c :: ys) = used ++ free) (hfree : ∀ r ∈ free, r 0 = 0)
    (hplace : used.length ≤ xs.length * vol.fs.bs.entriesPerCluster.toNat + start)
    (hroom : start + needed ≤ vol.fs.bs.entriesPerCluster.toNat) :
    Spot vol st first (xs ++ c :: ys) (xs ++ c :: ys) needed c start
      (xs.length * vol.fs.bs.entriesPerCluster.toNat + start) := by
  refine ⟨hsame.fs, hchain.same hsame, Nat.le_succ _, ⟨xs, ys, rfl, rfl, .inl hroom⟩, ?_, ?_, ?_⟩
  · rw [dirRecords_middle, List.length_append, List.length_append, length_dirRecords,
      length_clusterRecords]
    omega
  · rw [dirRecords_same hsame]
    exact same_refl _
  · intro r hr
    rw [dirRecords_same hsame, hrecords, List.drop_append, List.drop_eq_nil_of_le (by omega),
      List.nil_append] at hr
    exact hfree r (List.mem_of_mem_drop (List.mem_of_mem_head? hr))

/-- In a new cluster, which has been cleared. -/
theorem spot_behind {vol : Volume} {first : UInt32} (hmounted : Mounted vol.fs)
    (hfew : needed < 128) (hchain : DirChain st first (xs ++ [c, d])) (hsame : SameClusters vol st (xs ++ [c]))
    (hzero : ∀ k < 4096, k < vol.fs.bs.clusterSize.toNat → clusterByte st d k = 0) :
    Spot vol st first (xs ++ [c]) (xs ++ [c, d]) needed d 0
      ((xs.length + 1) * vol.fs.bs.entriesPerCluster.toNat) := by
  have hlen (t : Volume) (ht : t.fs = vol.fs) : (dirRecords t (xs ++ [c])).length =
      (xs.length + 1) * vol.fs.bs.entriesPerCluster.toNat := by
    rw [length_dirRecords, ht, List.length_append, List.length_singleton]
  have hrecords : dirRecords st (xs ++ [c, d]) =
      dirRecords st (xs ++ [c]) ++ clusterRecords st d := by
    rw [List.append_cons, dirRecords_append]
    exact congrArg _ (List.append_nil _)
  refine ⟨hsame.fs, hchain, ?_, ⟨xs ++ [c], [], List.append_cons .., ?_, .inr ⟨rfl, rfl⟩⟩,
    (hlen vol rfl).ge, ?_, ?_⟩
  · rw [List.append_cons, List.length_append, List.length_singleton]
  · rw [List.length_append, List.length_singleton]
    rfl
  · rw [hrecords, ← hlen st hsame.fs, List.take_left, hlen st hsame.fs, ← hlen vol rfl,
      List.take_length]
    exact hsame.records hmounted
  · intro r hr
    rw [hrecords, ← hlen st hsame.fs, List.drop_append, List.drop_eq_nil_of_le (by omega),
      List.nil_append, Nat.add_sub_cancel_left, List.head?_drop] at hr
    obtain ⟨hlt, rfl⟩ := List.getElem?_eq_some_iff.mp hr
    have hentries := length_clusterRecords st d
    rw [hsame.fs, hmounted.toNat_entriesPerCluster] at hentries
    rw [getElem_clusterRecords hlt]
    exact hzero (32 * needed + 0) (by omega) (by rw [hmounted.toNat_clusterSize]; omega)

/-! ## The search -/

theorem mod_of_offset {entries len m : ℕ} (hle : m * entries ≤ len)
    (hlt : len < m * entries + entries) : len % entries = len - m * entries := by
  obtain ⟨k, rfl⟩ := Nat.exists_eq_add_of_le hle
  rw [Nat.add_sub_cancel_left, Nat.mul_comm, Nat.mul_add_mod, Nat.mod_eq_of_lt (by omega)]

section arithmetic

variable {len m count : ℕ}

/-- A cluster with room: the used entries end in it, or in one that has room too. -/
theorem room_inside (hneeded : 0 < needed) (hcount : count = min entries (len - m * entries))
    (hroom : count + needed ≤ entries)
    (hpassed : len < m * entries → ¬ len % entries + needed ≤ entries) :
    len ≤ m * entries + count ∧
      (m * entries + count = len ∧ needed ≤ entries ↔ len % entries + needed ≤ entries) := by
  refine ⟨by omega, ?_⟩
  by_cases hle : m * entries ≤ len
  · have hmod := mod_of_offset hle (by omega)
    exact iff_of_true ⟨by omega, by omega⟩ (by omega)
  · exact iff_of_false (by omega) (hpassed (by omega))

/-- A cluster without room. -/
theorem room_passed (hcount : count = min entries (len - m * entries))
    (hroom : ¬ count + needed ≤ entries)
    (hpassed : len < m * entries → ¬ len % entries + needed ≤ entries)
    (hlt : len < (m + 1) * entries) : ¬ len % entries + needed ≤ entries := by
  rw [Nat.add_mul, Nat.one_mul] at hlt
  by_cases hle : m * entries ≤ len
  · have hmod := mod_of_offset hle hlt
    omega
  · exact hpassed (by omega)

/-- Behind the last cluster. -/
theorem room_behind (hpassed : len < m * entries → ¬ len % entries + needed ≤ entries)
    (hle : len ≤ m * entries) :
    m * entries = len ∧ needed ≤ entries ↔ len % entries + needed ≤ entries := by
  by_cases hfull : len = m * entries
  · rw [hfull, Nat.mul_mod_left, Nat.zero_add]
    exact and_iff_right rfl
  · exact iff_of_false (fun h => hfull h.1.symm) (hpassed (by omega))

end arithmetic

/-- The chain is extended, and the new cluster cleared. -/
theorem fat32ExtendChain_spot (hok : ∀ n, dev.ok n = true) {vol : Volume}
    (hformat : Formatted vol.fs) (hfew : needed < 128) {first : UInt32}
    (hchain : DirChain vol first (xs ++ [c])) (hsame : SameVolume vol st)
    (h : fat32ExtendChain dev st c = (d, st')) (hd : d ≠ 0) (page : UInt64) (old : ℕ → UInt8) :
    ∃ t, fat32WriteCluster dev (st'.touch page 0 4096) d page
        (fun i => if i < 4096 then 0 else old i) = (true, t) ∧
      Spot vol t first (xs ++ [c]) (xs ++ [c, d]) needed d 0
        ((xs.length + 1) * vol.fs.bs.entriesPerCluster.toNat) := by
  obtain ⟨hlinks, hclusters⟩ := fat32ExtendChain_chain hok (by rwa [hsame.fs]) (hchain.same hsame) h
    hd
  obtain ⟨buf, hbuf⟩ : ∃ buf : ℕ → UInt8, buf = fun i => if i < 4096 then 0 else old i := ⟨_, rfl⟩
  obtain ⟨t, hwrite, hfs, hcache, hdisk⟩ :=
    @fat32WriteCluster_ok dev (st'.touch page 0 4096) hok d page buf
  rw [hbuf] at hwrite
  have hfs' : st'.fs = vol.fs := hclusters.fs.trans hsame.fs
  have hmounted : Mounted st'.fs := by
    rw [hfs']
    exact hformat.mounted
  have hnotin : ∀ e ∈ xs ++ [c], e ≠ d := by
    rintro e he rfl
    have hnodup := hlinks.nodup
    rw [List.append_cons] at hnodup
    exact List.disjoint_of_nodup_append hnodup he List.mem_cons_self
  have hvolume : ∀ e ∈ xs ++ [c], OnVolume st'.fs e := fun e he =>
    hlinks.onVolume e (by rw [List.append_cons]; exact List.mem_append_left [d] he)
  have hnew : OnVolume st'.fs d := hlinks.onVolume d (by simp)
  have hwritten : SameClusters st' t (xs ++ [c]) :=
    sameClusters_of_write hmounted hnew (fun e he => ⟨hvolume e he, hnotin e he⟩) hfs hdisk
  refine ⟨t, hwrite, spot_behind hformat.mounted hfew ?_ ?_ ?_⟩
  · apply hlinks.congr hfs
    intro e _
    rw [fatLink, fatLink, hcache]
    rfl
  · exact ((hsame.sameClusters _).trans hclusters).trans hwritten
  · intro k hk hlt
    rw [← hfs', hmounted.toNat_clusterSize] at hlt
    have hstart : clusterStart t.fs d = clusterStart st'.fs d := by
      rw [hfs]
      rfl
    have hin : clusterStart st'.fs d ≤ clusterStart st'.fs d + k ∧
        clusterStart st'.fs d + k <
          clusterStart st'.fs d + 512 * st'.fs.bs.sectorsPerCluster.toNat := by omega
    rw [clusterByte, hstart]
    refine (hdisk _).trans ((if_pos hin).trans ?_)
    change buf (clusterStart st'.fs d + k - clusterStart st'.fs d) = 0
    rw [Nat.add_sub_cancel_left, hbuf]
    exact if_pos hk

/-- The place is behind the used entries, and next to them exactly if they leave room in their
last cluster. -/
theorem findTarget_spot (hok : ∀ n, dev.ok n = true) {vol : Volume} (hformat : Formatted vol.fs)
    (hneeded : 0 < needed) (hfew : needed < 128) {first : UInt32}
    (hchain : DirChain vol first (xs ++ c :: ys))
    (hrecords : dirRecords vol (xs ++ c :: ys) = used ++ free) (hused : ∀ r ∈ used, r 0 ≠ 0)
    (hfree : ∀ r ∈ free, r 0 = 0) {entries : ℕ}
    (hentries : vol.fs.bs.entriesPerCluster.toNat = entries)
    (hpassed : used.length < xs.length * entries → ¬ used.length % entries + needed ≤ entries)
    (hsame : SameVolume vol st) {page : UInt64} {fuel start : ℕ} {buf' : ℕ → UInt8}
    (h : findTarget dev page needed fuel c buf st = some (some (target, start, buf'), st')) :
    ∃ place chain', Spot vol st' first (xs ++ c :: ys) chain' needed target start place ∧
      used.length ≤ place ∧
      (place = used.length ∧ needed ≤ entries ↔ used.length % entries + needed ≤ entries) := by
  induction fuel generalizing xs c ys buf st with
  | zero => cases h
  | succ fuel ih =>
    obtain ⟨mine, left, hsplit, hmine, hleft, hcount⟩ := clusterRecords_split hrecords hentries
    have hslots := freeSlots_eq hneeded hsplit (fun r hr => hused r (hmine r hr))
      fun r hr => hfree r (hleft r hr)
    rw [hentries] at hslots
    obtain ⟨buf₁, t, hread, hsame', -, hbuf⟩ := @fat32ReadCluster_ok dev st hok c page buf
    have hboth := hsame.trans hsame'
    have hfind : findSlots buf₁ t.fs.bs.entriesPerCluster.toNat needed = freeSlots vol c needed :=
      findSlots_read hformat.mounted hboth c needed (by rwa [hsame'.fs, hsame'.disk])
    unfold findTarget at h
    split at h
    · cases h
    · rw [hread] at h
      dsimp only at h
      rw [hfind, hslots] at h
      by_cases hroom : mine.length + needed ≤ entries
      · rw [if_pos hroom] at h
        obtain ⟨hfound, rfl⟩ := Prod.mk.inj (Option.some.inj h)
        obtain ⟨rfl, hrest⟩ := Prod.mk.inj (Option.some.inj hfound)
        obtain ⟨rfl, -⟩ := Prod.mk.inj hrest
        obtain ⟨hplace, hiff⟩ := room_inside hneeded hcount hroom hpassed
        refine ⟨xs.length * entries + mine.length, xs ++ c :: ys, ?_, hplace, hiff⟩
        rw [← hentries] at hplace hroom ⊢
        exact spot_inside hchain hboth hrecords hfree hplace hroom
      · rw [if_neg hroom] at h
        dsimp only at h
        have hpassed' := room_passed hcount hroom hpassed
        have hcached : t.fs.fatCacheValid = true := by
          rw [hboth.fs]
          exact hformat.mounted.cached
        obtain ⟨hnext, hget⟩ := @fat32GetFatEntry_cached t hcached c
        generalize fat32GetFatEntry t c = out at h hnext hget
        obtain ⟨next, u⟩ := out
        have hall := hboth.trans hget
        rw [hboth.fatLink] at hnext
        obtain rfl : next = fatLink vol c := hnext
        dsimp only at h hall
        have hsucc : successor vol c = ys.head? := hchain.linked.next_eq
        unfold successor at hsucc
        split at h
        · -- the chain ends here
          rename_i hend
          rw [if_pos hend] at hsucc
          obtain rfl := List.head?_eq_none_iff.mp hsucc.symm
          generalize hextend : fat32ExtendChain dev u c = out at h
          obtain ⟨new, v⟩ := out
          dsimp only at h
          split at h
          · cases h
          · rename_i hnew
            obtain ⟨w, hwrite, hspot⟩ := fat32ExtendChain_spot hok hformat hfew hchain hall hextend
              hnew page buf₁
            rw [hwrite] at h
            obtain ⟨hfound, rfl⟩ := Prod.mk.inj (Option.some.inj h)
            obtain ⟨rfl, hrest⟩ := Prod.mk.inj (Option.some.inj hfound)
            obtain ⟨rfl, -⟩ := Prod.mk.inj hrest
            rw [hentries] at hspot
            have hlen := congrArg List.length hrecords
            rw [length_dirRecords, hentries, List.length_append, List.length_append,
              List.length_singleton] at hlen
            exact ⟨_, _, hspot, by omega, room_behind hpassed' (by omega)⟩
        · rename_i hlt
          rw [if_neg hlt] at hsucc
          obtain ⟨zs, rfl⟩ := List.head?_eq_some_iff.mp hsucc.symm
          rw [List.append_cons] at hchain hrecords
          have hlen : (xs ++ [c]).length = xs.length + 1 := by
            rw [List.length_append, List.length_singleton]
          have hspot := ih hchain hrecords (by rwa [hlen]) hall h
          rwa [← List.append_cons] at hspot

end Rhoudveine.Fat32
