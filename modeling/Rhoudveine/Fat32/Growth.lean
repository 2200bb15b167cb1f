import Rhoudveine.Fat32.Chains
import Rhoudveine.Fat32.File
import Rhoudveine.Fat32.WriteBack
import Rhoudveine.Lib.Linked

/-!
# Growing chains

The chains of the cached FAT as linked lists of clusters, and the bytes in them.  A chain grows by
clusters that were free, so all others stay as they are.
-/

namespace Rhoudveine.Fat32
open Mm Search

/-! ## Small volumes -/

/-- A mounted volume whose FAT and whose clusters each have room in one page. -/
structure SmallVolume (fs : Fat32Fs) : Prop where
  mounted : Mounted fs
  offsets : fs = Fat32Fs.ofBootSector fs.bs fs.fatCachePage
  sectors : fs.bs.sectorsPerCluster ≤ 8
  fat : fs.bs.fatSize32 ≤ 8
  clusters : fs.bs.totalClusters ≤ 1024

/-- A cluster with an entry in the cached page. -/
def IsCluster (c : UInt32) : Prop := 2 ≤ c ∧ c < 1024

theorem IsCluster.toNat {c : UInt32} (h : IsCluster c) : 2 ≤ c.toNat ∧ c.toNat < 1024 :=
  ⟨UInt32.le_iff_toNat_le.mp h.1, UInt32.lt_iff_toNat_lt.mp h.2⟩

theorem IsCluster.ne_zero {c : UInt32} (h : IsCluster c) : c ≠ 0 := by
  rintro rfl
  have hlow := h.toNat.1
  rw [UInt32.toNat_zero] at hlow
  omega

namespace SmallVolume

variable {fs : Fat32Fs}

theorem clusterStart_eq (h : SmallVolume fs) {c : UInt32} (hc : IsCluster c) :
    clusterStart fs c = (fs.bs.reservedSectors.toNat + fs.bs.numFats.toNat * fs.bs.fatSize32.toNat +
      (c.toNat - 2) * fs.bs.sectorsPerCluster.toNat) * 512 := by
  obtain ⟨hlow, hhigh⟩ := hc.toNat
  have hreserved := fs.bs.reservedSectors.toNat_lt
  have hfats := fs.bs.numFats.toNat_lt
  have hfat : fs.bs.fatSize32.toNat ≤ 8 := UInt32.le_iff_toNat_le.mp h.fat
  have hsectors : fs.bs.sectorsPerCluster.toNat ≤ 8 := UInt8.le_iff_toNat_le.mp h.sectors
  have harea : fs.bs.numFats.toNat * fs.bs.fatSize32.toNat ≤ 255 * 8 :=
    Nat.mul_le_mul (by omega) hfat
  have hplace : (c.toNat - 2) * fs.bs.sectorsPerCluster.toNat ≤ 1024 * 8 :=
    Nat.mul_le_mul (by omega) hsectors
  have htwo : (c - 2).toNat = c.toNat - 2 := UInt32.toNat_sub_of_le _ _ hc.1
  have hdata : fs.dataStartSector.toNat =
      fs.bs.reservedSectors.toNat + fs.bs.numFats.toNat * fs.bs.fatSize32.toNat := by
    have hoffsets := congrArg (fun f => f.dataStartSector.toNat) h.offsets
    dsimp only [Fat32Fs.ofBootSector] at hoffsets
    rw [hoffsets, UInt32.toNat_add, UInt32.toNat_mul, UInt16.toNat_toUInt32, UInt8.toNat_toUInt32,
      Nat.mod_eq_of_lt (show _ < 2 ^ 32 by omega), Nat.mod_eq_of_lt (by omega)]
  rw [clusterStart, fat32ClusterToSector, UInt32.toNat_add, UInt32.toNat_mul, htwo, hdata,
    UInt8.toNat_toUInt32, Nat.mod_eq_of_lt (show _ < 2 ^ 32 by omega), Nat.mod_eq_of_lt (by omega)]

/-- Clusters do not overlap. -/
theorem clusterStart_apart (h : SmallVolume fs) {c d : UInt32} (hc : IsCluster c)
    (hd : IsCluster d) (hlt : c < d) :
    clusterStart fs c + fs.bs.clusterSize.toNat ≤ clusterStart fs d := by
  have hsucc : c.toNat - 2 + 1 ≤ d.toNat - 2 := by
    have hlt' := UInt32.lt_iff_toNat_lt.mp hlt
    have hlow := hc.toNat.1
    omega
  have hmul := Nat.mul_le_mul_right fs.bs.sectorsPerCluster.toNat hsucc
  rw [Nat.add_mul, Nat.one_mul] at hmul
  rw [h.clusterStart_eq hc, h.clusterStart_eq hd, h.mounted.toNat_clusterSize]
  omega

/-- The first FAT lies before the clusters. -/
theorem fatOffset_le (h : SmallVolume fs) (hcopies : fs.bs.numFats ≠ 0) {st : Volume}
    (hst : st.fs = fs) {c : UInt32} (hc : IsCluster c) : fatOffset st 1 ≤ clusterStart fs c := by
  have hstart : fs.fatStartSector.toNat = fs.bs.reservedSectors.toNat := by
    have hoffsets := congrArg (fun f => f.fatStartSector.toNat) h.offsets
    exact hoffsets.trans (UInt16.toNat_toUInt32 _)
  have hone : 1 ≤ fs.bs.numFats.toNat :=
    Nat.one_le_iff_ne_zero.mpr fun hzero => hcopies (UInt8.toNat_inj.mp hzero)
  have harea := Nat.mul_le_mul_right fs.bs.fatSize32.toNat hone
  rw [h.clusterStart_eq hc, fatOffset, hst, hstart]
  omega

end SmallVolume

/-! ## Links -/

variable {st st' st'' : Volume} {chain chain' chain'' : List UInt32} {c d r : UInt32}

/-- The cluster after a cluster. -/
def successor (st : Volume) (c : UInt32) : Option UInt32 :=
  if endOfChain ≤ fatLink st c then none else some (fatLink st c)

/-- A list of clusters in the FAT, up to its end mark. -/
structure Chained (st : Volume) (chain : List UInt32) : Prop where
  linked : Linked (successor st) chain.head? chain
  clusters : ∀ c ∈ chain, IsCluster c

theorem successor_congr (h : fatLink st' c = fatLink st c) : successor st' c = successor st c := by
  rw [successor, successor, h]

namespace Chained

theorem nodup (h : Chained st chain) : chain.Nodup := h.linked.nodup

/-- The clusters of a chain are not free. -/
theorem link_ne_zero (h : Chained st chain) (hc : c ∈ chain) : fatLink st c ≠ 0 := by
  intro hzero
  have hnext : successor st c = some 0 := by
    rw [successor, hzero]
    rfl
  exact (h.clusters 0 (h.linked.next_mem hc hnext)).ne_zero rfl

theorem congr (h : Chained st chain) (hlinks : ∀ c ∈ chain, fatLink st' c = fatLink st c) :
    Chained st' chain :=
  ⟨h.linked.congr fun c hc => successor_congr (hlinks c hc), h.clusters⟩

end Chained

theorem mask_of_lt (h : c < endOfChain) : c &&& 0x0FFFFFFF = c := by
  have hlt := UInt32.lt_iff_toNat_lt.mp h
  have hend : endOfChain.toNat = 0x0FFFFFF8 := rfl
  have hmask : (0x0FFFFFFF : UInt32).toNat = 2 ^ 28 - 1 := rfl
  apply UInt32.toNat_inj.mp
  rw [UInt32.toNat_and, hmask, Nat.and_two_pow_sub_one_eq_mod, Nat.mod_eq_of_lt (by omega)]

theorem IsCluster.lt_endOfChain (h : IsCluster c) : c < endOfChain :=
  UInt32.lt_trans h.2 (by decide)

/-- What `fat32_set_fat_entry` does to the links. -/
theorem fatLink_setWord {v : UInt32} (h : st'.fatCache = setWord st.fatCache r.toNat v)
    (c : UInt32) : fatLink st' c = if c = r then v &&& 0x0FFFFFFF else fatLink st c := by
  rw [fatLink, h, setWord]
  by_cases hc : c = r
  · rw [if_pos hc, hc, Function.update_self, mask_word]
  · have hne : c.toNat ≠ r.toNat := fun heq => hc (UInt32.toNat_inj.mp heq)
    rw [if_neg hc, Function.update_of_ne hne, fatLink]

theorem successor_end (h : st'.fatCache = setWord st.fatCache r.toNat 0x0FFFFFFF) :
    successor st' = Function.update (successor st) r none := by
  funext c
  by_cases hc : c = r
  · rw [successor, fatLink_setWord h, if_pos hc, hc, Function.update_self]
    rfl
  · rw [Function.update_of_ne hc]
    apply successor_congr
    rw [fatLink_setWord h, if_neg hc]

theorem successor_link (hd : d < endOfChain) (h : st'.fatCache = setWord st.fatCache r.toNat d) :
    successor st' = Function.update (successor st) r (some d) := by
  funext c
  by_cases hc : c = r
  · rw [successor, fatLink_setWord h, if_pos hc, mask_of_lt hd, hc, Function.update_self]
    exact if_neg (UInt32.not_le.mpr hd)
  · rw [Function.update_of_ne hc]
    apply successor_congr
    rw [fatLink_setWord h, if_neg hc]

/-! ## Allocation -/

variable {dev : Device}

/-- A free cluster has been marked as the end of a chain. -/
structure Allocated (st st' : Volume) (r : UInt32) : Prop where
  fs : st'.fs = st.fs
  cluster : IsCluster r
  free : fatLink st r = 0
  fatCache : st'.fatCache = setWord st.fatCache r.toNat 0x0FFFFFFF
  disk : ∀ a, fatOffset st 1 ≤ a → st'.disk a = st.disk a

theorem fat32AllocCluster_spec (hok : ∀ n, dev.ok n = true) (hsmall : SmallVolume st.fs) :
    (∃ t, fat32AllocCluster dev st = (0, t) ∧ SameVolume st t) ∨
      ∃ r t, fat32AllocCluster dev st = (r, t) ∧ Allocated st t r := by
  rcases @fat32AllocCluster_cases dev st hsmall.mounted.cached with
    ⟨-, accesses, heq⟩ | ⟨r, accesses, hfree, htwo, heq⟩
  · exact Or.inl ⟨_, heq, rfl, rfl, rfl⟩
  · right
    have hmark : (markCluster dev (st.withAccesses accesses) r).1 = true := hok _
    obtain ⟨hflush, hcache⟩ := markCluster_flushed hsmall.mounted.cached hmark
    obtain ⟨-, hlt, hzero, -⟩ := firstFree_eq_some hfree
    have htotal : st.fs.bs.totalClusters.toNat ≤ 1024 := UInt32.le_iff_toNat_le.mp hsmall.clusters
    rw [if_pos hmark] at heq
    refine ⟨r, _, heq, hflush.fs, ⟨htwo, ?_⟩, hzero, hcache, fun a ha => ?_⟩
    · rw [UInt32.lt_iff_toNat_lt]
      exact hlt.trans_le htotal
    · exact hflush.outside a (Or.inr ha)

/-! ## Contents -/

/-- Byte `k` of a cluster. -/
def clusterByte (st : Volume) (c : UInt32) (k : ℕ) : UInt8 := st.disk (clusterStart st.fs c + k)

/-- Byte `p` of the clusters of a chain; `none` behind them. -/
def fileByte (st : Volume) (chain : List UInt32) (p : ℕ) : Option UInt8 :=
  chain[p / st.fs.bs.clusterSize.toNat]?.map fun c =>
    clusterByte st c (p % st.fs.bs.clusterSize.toNat)

/-- The clusters have the same bytes. -/
def SameBytes (st st' : Volume) : Prop :=
  ∀ c, IsCluster c → ∀ k < st.fs.bs.clusterSize.toNat, clusterByte st' c k = clusterByte st c k

theorem SmallVolume.clusterSize_pos (h : SmallVolume st.fs) : 0 < st.fs.bs.clusterSize.toNat := by
  have hpos := h.mounted.sectors_pos
  rw [h.mounted.toNat_clusterSize]
  omega

theorem fileByte_congr (hsmall : SmallVolume st.fs) (hfs : st'.fs = st.fs)
    (hclusters : ∀ c ∈ chain, ∀ k < st.fs.bs.clusterSize.toNat,
      clusterByte st' c k = clusterByte st c k) (p : ℕ) :
    fileByte st' chain p = fileByte st chain p := by
  rw [fileByte, fileByte, hfs]
  cases hc : chain[p / st.fs.bs.clusterSize.toNat]? with
  | none => rfl
  | some c =>
    have hbyte := hclusters c (List.mem_of_getElem? hc) (p % st.fs.bs.clusterSize.toNat)
      (Nat.mod_lt p hsmall.clusterSize_pos)
    exact congrArg some hbyte

/-- The FAT is written before the clusters. -/
theorem sameBytes_of_disk (hsmall : SmallVolume st.fs) (hcopies : st.fs.bs.numFats ≠ 0)
    (hfs : st'.fs = st.fs) (hdisk : ∀ a, fatOffset st 1 ≤ a → st'.disk a = st.disk a) :
    SameBytes st st' := by
  intro c hc k _
  rw [clusterByte, clusterByte, hfs]
  exact hdisk _ ((hsmall.fatOffset_le hcopies rfl hc).trans (Nat.le_add_right _ k))

/-! ## Writing to a chain -/

/-- From `st` on, a chain has grown by free clusters and `n` bytes have been written to it. -/
structure Wrote (st st' : Volume) (chain chain' : List UInt32) (start n : ℕ) (bytes : ℕ → UInt8) :
    Prop where
  fs : st'.fs = st.fs
  chained : Chained st' chain'
  grown : chain <+: chain'
  fresh : ∀ c ∈ chain', c ∉ chain → fatLink st c = 0
  links : ∀ c, c ∉ chain' → fatLink st' c = fatLink st c
  others : ∀ c, IsCluster c → c ∉ chain' → ∀ k < st.fs.bs.clusterSize.toNat,
    clusterByte st' c k = clusterByte st c k
  inside : 0 < n → start + n ≤ chain'.length * st.fs.bs.clusterSize.toNat
  written : ∀ p, fileByte st' chain' p =
    if start ≤ p ∧ p < start + n then some (bytes (p - start)) else fileByte st chain' p

namespace Wrote

variable {start n : ℕ} {bytes : ℕ → UInt8}

/-- Only links have changed. -/
theorem of_links (hsmall : SmallVolume st.fs) (hfs : st'.fs = st.fs) (hbytes : SameBytes st st')
    (hchained : Chained st' chain') (hgrown : chain <+: chain')
    (hfresh : ∀ c ∈ chain', c ∉ chain → fatLink st c = 0)
    (hlinks : ∀ c, c ∉ chain' → fatLink st' c = fatLink st c) :
    Wrote st st' chain chain' start 0 bytes where
  fs := hfs
  chained := hchained
  grown := hgrown
  fresh := hfresh
  links := hlinks
  others c hc _ := hbytes c hc
  inside hpos := absurd hpos (Nat.lt_irrefl 0)
  written p := by
    have hnone : ¬ (start ≤ p ∧ p < start + 0) := fun h => Nat.not_lt.mpr h.1 h.2
    rw [if_neg hnone]
    exact fileByte_congr hsmall hfs (fun c hc => hbytes c (hchained.clusters c hc)) p

theorem of_same (hsmall : SmallVolume st.fs) (hchained : Chained st chain)
    (h : SameVolume st st') : Wrote st st' chain chain start 0 bytes := by
  apply of_links hsmall h.fs
  · intro c _ k _
    rw [clusterByte, clusterByte, h.fs, h.disk]
  · exact hchained.congr fun c _ => h.fatLink c
  · exact List.prefix_rfl
  · exact fun c hc hnot => absurd hc hnot
  · exact fun c _ => h.fatLink c

/-- Writing on where the last write ended. -/
theorem trans (hsmall : SmallVolume st.fs) (h : Wrote st st' chain chain' start n bytes)
    {start' m : ℕ} {bytes' : ℕ → UInt8} (h' : Wrote st' st'' chain' chain'' start' m bytes')
    (hstart : start' = start + n) (hbytes : ∀ k, bytes' k = bytes (n + k)) :
    Wrote st st'' chain chain'' start (n + m) bytes := by
  have hsub : ∀ c, c ∈ chain' → c ∈ chain'' := fun c hc => h'.grown.subset hc
  have hsize : st'.fs.bs.clusterSize.toNat = st.fs.bs.clusterSize.toNat := by rw [h.fs]
  constructor
  · exact h'.fs.trans h.fs
  · exact h'.chained
  · exact h.grown.trans h'.grown
  · intro c hc hnot
    by_cases hmem : c ∈ chain'
    · exact h.fresh c hmem hnot
    · rw [← h.links c hmem]
      exact h'.fresh c hc hmem
  · intro c hc
    rw [h'.links c hc, h.links c fun hmem => hc (hsub c hmem)]
  · intro c hcluster hc k hk
    rw [h'.others c hcluster hc k (hsize ▸ hk),
      h.others c hcluster (fun hmem => hc (hsub c hmem)) k hk]
  · intro hpos
    by_cases hm : 0 < m
    · have hin := h'.inside hm
      rw [hsize] at hin
      omega
    · have hin := h.inside (by omega)
      have hlen := Nat.mul_le_mul_right st.fs.bs.clusterSize.toNat h'.grown.length_le
      omega
  · intro p
    obtain ⟨rest, rfl⟩ := h'.grown
    have hold : fileByte st' (chain' ++ rest) p =
        if start ≤ p ∧ p < start + n then some (bytes (p - start))
        else fileByte st (chain' ++ rest) p := by
      by_cases hp : p / st.fs.bs.clusterSize.toNat < chain'.length
      · have hleft (t : Volume) (ht : t.fs = st.fs) :
            fileByte t (chain' ++ rest) p = fileByte t chain' p := by
          rw [fileByte, fileByte, ht, List.getElem?_append_left hp]
        rw [hleft st' h.fs, hleft st rfl]
        exact h.written p
      · -- behind the chain of `st'`, in clusters that it did not have
        have hout : ¬ (start ≤ p ∧ p < start + n) := by
          rintro ⟨hle, hlt⟩
          have hin := h.inside (by omega)
          have hdiv := (Nat.div_lt_iff_lt_mul hsmall.clusterSize_pos).mpr (hlt.trans_le hin)
          exact hp hdiv
        rw [if_neg hout, fileByte, fileByte, h.fs,
          List.getElem?_append_right (Nat.not_lt.mp hp)]
        cases hc : rest[p / st.fs.bs.clusterSize.toNat - chain'.length]? with
        | none => rfl
        | some c =>
          have hmem : c ∈ rest := List.mem_of_getElem? hc
          have hnot : c ∉ chain' := fun hin =>
            (List.disjoint_of_nodup_append h'.chained.nodup) hin hmem
          have hcluster := h'.chained.clusters c (List.mem_append_right _ hmem)
          exact congrArg some (h.others c hcluster hnot _ (Nat.mod_lt p hsmall.clusterSize_pos))
    rw [h'.written p, hold, hstart]
    by_cases hp : start + n ≤ p ∧ p < start + n + m
    · have hin : start ≤ p ∧ p < start + (n + m) := by omega
      have hindex : n + (p - (start + n)) = p - start := by omega
      rw [if_pos hp, if_pos hin, hbytes, hindex]
    · rw [if_neg hp]
      by_cases hin : start ≤ p ∧ p < start + n
      · rw [if_pos hin, if_pos (by omega)]
      · rw [if_neg hin, if_neg (by omega)]

theorem after (hsmall : SmallVolume st.fs) (h : Wrote st st' chain chain' start 0 bytes) {m : ℕ}
    (h' : Wrote st' st'' chain' chain'' start m bytes) :
    Wrote st st'' chain chain'' start m bytes := by
  have hboth := h.trans hsmall h' rfl fun k => congrArg bytes (Nat.zero_add k).symm
  rwa [Nat.zero_add] at hboth

end Wrote

/-! ## Growing -/

section grow

variable {xs ys : List UInt32} (start : ℕ) (bytes : ℕ → UInt8)

theorem Chained.successor_eq (h : Chained st (xs ++ c :: ys)) : successor st c = ys.head? :=
  h.linked.next_eq

theorem Chained.link_end (h : Chained st (xs ++ [c])) : fatLink st c ≥ endOfChain := by
  have hnext := h.successor_eq
  rw [successor] at hnext
  by_contra hnot
  rw [if_neg hnot] at hnext
  cases hnext

theorem Chained.link_next (h : Chained st (xs ++ c :: d :: ys)) :
    ¬ fatLink st c ≥ endOfChain ∧ fatLink st c = d := by
  have hnext := h.successor_eq
  rw [successor] at hnext
  by_cases hend : endOfChain ≤ fatLink st c
  · rw [if_pos hend] at hnext
    cases hnext
  · rw [if_neg hend] at hnext
    exact ⟨hend, Option.some.inj hnext⟩

/-- A first cluster. -/
theorem Allocated.first (hsmall : SmallVolume st.fs) (hcopies : st.fs.bs.numFats ≠ 0)
    (h : Allocated st st' r) : Wrote st st' [] [r] start 0 bytes := by
  apply Wrote.of_links hsmall h.fs (sameBytes_of_disk hsmall hcopies h.fs h.disk)
  · refine ⟨⟨rfl, ?_⟩, ?_⟩
    · rw [successor_end h.fatCache, Function.update_self]
      rfl
    · intro c hc
      rw [List.mem_singleton.mp hc]
      exact h.cluster
  · exact List.nil_prefix
  · intro c hc _
    rw [List.mem_singleton.mp hc]
    exact h.free
  · intro c hc
    rw [fatLink_setWord h.fatCache, if_neg fun heq => hc (List.mem_singleton.mpr heq)]

theorem fat32ExtendChain_spec (hok : ∀ n, dev.ok n = true) (hsmall : SmallVolume st.fs)
    (hcopies : st.fs.bs.numFats ≠ 0) (hchained : Chained st (xs ++ [c])) :
    (∃ t, fat32ExtendChain dev st c = (0, t) ∧ SameVolume st t) ∨
      ∃ r t, fat32ExtendChain dev st c = (r, t) ∧ IsCluster r ∧
        Wrote st t (xs ++ [c]) (xs ++ [c, r]) start 0 bytes := by
  rcases fat32AllocCluster_spec hok hsmall with ⟨t, halloc, hsame⟩ | ⟨r, t, halloc, hr⟩
  · left
    refine ⟨t, ?_, hsame⟩
    rw [fat32ExtendChain, halloc]
    exact if_pos rfl
  · right
    have hcached : t.fs.fatCacheValid = true := by
      rw [hr.fs]
      exact hsmall.mounted.cached
    have hset := fat32SetFatEntry_valid hcached c r
    have hflush := @writeFat_flushed dev (fat32SetFatEntry t c r) (hok _)
    refine ⟨r, (writeFat dev (fat32SetFatEntry t c r)).2, ?_, hr.cluster, ?_⟩
    · rw [fat32ExtendChain, halloc]
      exact if_neg hr.cluster.ne_zero
    · generalize hu : (writeFat dev (fat32SetFatEntry t c r)).2 = u at hflush
      have hcache : u.fatCache = setWord t.fatCache c.toNat r := by
        rw [← hu, hset]
        rfl
      have hnotin : r ∉ xs ++ [c] := fun hmem => hchained.link_ne_zero hmem hr.free
      have hfs : u.fs = st.fs := by
        rw [hflush.fs, hset]
        exact hr.fs
      -- only two links change: the bytes of the clusters lie behind the table
      apply Wrote.of_links hsmall hfs
      · apply sameBytes_of_disk hsmall hcopies hfs
        intro a ha
        have hoff : fatOffset (fat32SetFatEntry t c r) 1 = fatOffset st 1 := by
          rw [hset, fatOffset, fatOffset]
          dsimp only [Volume.touch]
          rw [hr.fs]
        have hkeep := hflush.outside a (Or.inr (hoff.trans_le ha))
        rw [hkeep, hset]
        exact hr.disk a ha
      · constructor
        · -- the new cluster is linked behind the last, and ends the chain itself
          have hinsert := hchained.linked.insert hnotin
          rw [hchained.linked.last] at hinsert
          rw [successor_link hr.cluster.lt_endOfChain hcache, successor_end hr.fatCache]
          have hhead : (xs ++ [c, r]).head? = (xs ++ [c]).head? := by
            cases xs <;> rfl
          rw [hhead]
          exact hinsert
        · intro d hd
          rw [List.append_cons, List.mem_append, List.mem_singleton] at hd
          rcases hd with hd | rfl
          · exact hchained.clusters d hd
          · exact hr.cluster
      · exact ⟨[r], List.append_assoc xs [c] [r]⟩
      · intro d hd hnot
        rw [List.append_cons, List.mem_append, List.mem_singleton] at hd
        rcases hd with hd | rfl
        · exact absurd hd hnot
        · exact hr.free
      · intro d hd
        rw [List.append_cons, List.mem_append, List.mem_singleton, not_or, List.mem_append,
          List.mem_singleton, not_or] at hd
        rw [fatLink_setWord hcache, if_neg hd.1.2, fatLink_setWord hr.fatCache, if_neg hd.2]

/-- On to the next cluster, which may be a new one. -/
theorem nextCluster_spec (hok : ∀ n, dev.ok n = true) (hsmall : SmallVolume st.fs)
    (hcopies : st.fs.bs.numFats ≠ 0) (hchained : Chained st (xs ++ c :: ys)) :
    (∃ t, nextCluster dev st c = (none, t) ∧
      Wrote st t (xs ++ c :: ys) (xs ++ c :: ys) start 0 bytes) ∨
      ∃ d zs t, nextCluster dev st c = (some d, t) ∧
        Wrote st t (xs ++ c :: ys) (xs ++ c :: d :: zs) start 0 bytes := by
  obtain ⟨hentry, hsame⟩ := fat32GetFatEntry_cached hsmall.mounted.cached c
  generalize hget : fat32GetFatEntry st c = out at hentry hsame
  obtain ⟨entry, t⟩ := out
  dsimp only at hentry hsame
  have hself : Wrote st t (xs ++ c :: ys) (xs ++ c :: ys) start 0 bytes :=
    Wrote.of_same hsmall hchained hsame
  rw [nextCluster, hget]
  dsimp only
  rw [hentry]
  cases ys with
  | nil =>
    have hsmall' : SmallVolume t.fs := hsame.fs ▸ hsmall
    have hcopies' : t.fs.bs.numFats ≠ 0 := hsame.fs ▸ hcopies
    rw [if_pos hchained.link_end]
    rcases fat32ExtendChain_spec start bytes hok hsmall' hcopies'
      hself.chained with ⟨u, hext, hsame'⟩ | ⟨r, u, hext, hr, hwrote⟩
    · left
      refine ⟨u, ?_, Wrote.of_same hsmall hchained (hsame.trans hsame')⟩
      rw [hext]
      exact if_pos rfl
    · right
      refine ⟨r, [], u, ?_, hself.after hsmall hwrote⟩
      rw [hext]
      exact if_neg hr.ne_zero
  | cons d zs =>
    obtain ⟨hlt, hlink⟩ := hchained.link_next
    right
    refine ⟨d, zs, t, ?_, hself⟩
    rw [if_neg hlt, hlink]

theorem skipExtending_spec (hok : ∀ n, dev.ok n = true) (hsmall : SmallVolume st.fs)
    (hcopies : st.fs.bs.numFats ≠ 0) (hchained : Chained st (xs ++ c :: ys)) (n : ℕ) :
    (∃ chain' t, skipExtending dev n c st = (none, t) ∧
      Wrote st t (xs ++ c :: ys) chain' start 0 bytes) ∨
      ∃ ws d zs t, skipExtending dev n c st = (some d, t) ∧ ws.length = xs.length + n ∧
        Wrote st t (xs ++ c :: ys) (ws ++ d :: zs) start 0 bytes := by
  induction n generalizing xs c ys st with
  | zero =>
    right
    exact ⟨xs, c, ys, st, rfl, rfl, Wrote.of_same hsmall hchained (SameVolume.refl st)⟩
  | succ n ih =>
    rw [skipExtending]
    rcases nextCluster_spec start bytes hok hsmall hcopies hchained with
      ⟨t, hnext, hwrote⟩ | ⟨d, zs, t, hnext, hwrote⟩
    · rw [hnext]
      exact Or.inl ⟨_, t, rfl, hwrote⟩
    · have hsmall' : SmallVolume t.fs := hwrote.fs ▸ hsmall
      have hcopies' : t.fs.bs.numFats ≠ 0 := hwrote.fs ▸ hcopies
      have hchained' := hwrote.chained
      rw [List.append_cons] at hchained'
      rw [hnext]
      rcases ih hsmall' hcopies' hchained' with
        ⟨chain', u, hskip, hwrote'⟩ | ⟨ws, e, zs', u, hskip, hlen, hwrote'⟩
      · rw [← List.append_cons] at hwrote'
        exact Or.inl ⟨chain', u, hskip, hwrote.after hsmall hwrote'⟩
      · rw [← List.append_cons] at hwrote'
        refine Or.inr ⟨ws, e, zs', u, hskip, ?_,
          hwrote.after hsmall hwrote'⟩
        rw [hlen, List.length_append, List.length_singleton]
        omega

end grow

end Rhoudveine.Fat32
