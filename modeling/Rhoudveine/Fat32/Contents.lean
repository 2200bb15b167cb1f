import Rhoudveine.Fat32.Growth

/-!
# What files hold

`fat32_write` and `fat32_read` as changes and lookups of the bytes of a chain.
-/

namespace Rhoudveine.Fat32
open Mm

variable {dev : Device} {st st' : Volume} {xs ys : List UInt32} {c : UInt32}

/-! ## One cluster -/

theorem fat32WriteCluster_spec (hok : ∀ n, dev.ok n = true) (hsmall : SmallVolume st.fs)
    (hc : IsCluster c) (page : UInt64) (buf : ℕ → UInt8) :
    ∃ t, fat32WriteCluster dev st c page buf = (true, t) ∧ t.fs = st.fs ∧
      t.fatCache = st.fatCache ∧ ∀ d, IsCluster d → ∀ k < st.fs.bs.clusterSize.toNat,
        clusterByte t d k = if d = c then buf k else clusterByte st d k := by
  obtain ⟨t, hwrite, hfs, hcache, hdisk⟩ := @fat32WriteCluster_ok dev st hok c page buf
  refine ⟨t, hwrite, hfs, hcache, fun d hd k hk => ?_⟩
  rw [clusterByte, clusterByte, hfs, hdisk, ← hsmall.mounted.toNat_clusterSize]
  by_cases hdc : d = c
  · subst hdc
    rw [if_pos rfl, if_pos (by omega), Nat.add_sub_cancel_left]
  · have hout : ¬ (clusterStart st.fs c ≤ clusterStart st.fs d + k ∧
        clusterStart st.fs d + k < clusterStart st.fs c + st.fs.bs.clusterSize.toNat) := by
      rcases UInt32.lt_or_lt_of_ne hdc with hlt | hlt
      · have hapart := hsmall.clusterStart_apart hd hc hlt
        omega
      · have hapart := hsmall.clusterStart_apart hc hd hlt
        omega
    rw [if_neg hdc, if_neg hout]

/-- A position in the middle of a chain. -/
theorem fileByte_at (hsmall : SmallVolume st.fs) {o : ℕ} (ho : o < st.fs.bs.clusterSize.toNat) :
    fileByte st (xs ++ c :: ys) (xs.length * st.fs.bs.clusterSize.toNat + o) =
      some (clusterByte st c o) := by
  have hpos := hsmall.clusterSize_pos
  have hdiv : (xs.length * st.fs.bs.clusterSize.toNat + o) / st.fs.bs.clusterSize.toNat =
      xs.length := by
    rw [Nat.mul_comm, Nat.mul_add_div hpos, Nat.div_eq_of_lt ho, Nat.add_zero]
  have hmod : (xs.length * st.fs.bs.clusterSize.toNat + o) % st.fs.bs.clusterSize.toNat = o := by
    rw [Nat.mul_comm, Nat.mul_add_mod, Nat.mod_eq_of_lt ho]
  rw [fileByte, hdiv, hmod, List.getElem?_append_right le_rfl, Nat.sub_self]
  rfl

/-- Writing one cluster of a chain. -/
theorem Wrote.of_cluster (hsmall : SmallVolume st.fs) (hchained : Chained st (xs ++ c :: ys))
    {o n : ℕ} {buf bytes : ℕ → UInt8} (hon : o + n ≤ st.fs.bs.clusterSize.toNat)
    (hbuf : ∀ k < st.fs.bs.clusterSize.toNat,
      buf k = if o ≤ k ∧ k < o + n then bytes (k - o) else clusterByte st c k)
    (hfs : st'.fs = st.fs) (hcache : st'.fatCache = st.fatCache)
    (hbytes : ∀ d, IsCluster d → ∀ k < st.fs.bs.clusterSize.toNat,
      clusterByte st' d k = if d = c then buf k else clusterByte st d k) :
    Wrote st st' (xs ++ c :: ys) (xs ++ c :: ys) (xs.length * st.fs.bs.clusterSize.toNat + o) n
      bytes := by
  have hlink (d : UInt32) : fatLink st' d = fatLink st d := by
    rw [fatLink, fatLink, hcache]
  have hpos := hsmall.clusterSize_pos
  constructor
  · exact hfs
  · exact hchained.congr fun d _ => hlink d
  · exact List.prefix_rfl
  · exact fun d hd hnot => absurd hd hnot
  · exact fun d _ => hlink d
  · intro d hd hnot k hk
    have hne : d ≠ c := by
      rintro rfl
      exact hnot (List.mem_append_right xs List.mem_cons_self)
    rw [hbytes d hd k hk, if_neg hne]
  · intro _
    rw [List.length_append, List.length_cons, Nat.add_mul, Nat.add_mul, Nat.one_mul]
    omega
  · intro p
    have hmod := Nat.mod_lt p hpos
    have hp := Nat.div_add_mod p st.fs.bs.clusterSize.toNat
    rw [Nat.mul_comm] at hp
    by_cases hat : p / st.fs.bs.clusterSize.toNat = xs.length
    · rw [hat] at hp
      have hcluster := hchained.clusters c (List.mem_append_right xs List.mem_cons_self)
      rw [← hp]
      have hsmall' : SmallVolume st'.fs := hfs ▸ hsmall
      have hnew := @fileByte_at st' xs ys c hsmall' (p % st.fs.bs.clusterSize.toNat) (hfs ▸ hmod)
      rw [hfs] at hnew
      rw [hnew, fileByte_at hsmall hmod, hbytes c hcluster _ hmod, if_pos rfl, hbuf _ hmod]
      generalize p % st.fs.bs.clusterSize.toNat = k
      by_cases hk : o ≤ k ∧ k < o + n
      · have hindex : xs.length * st.fs.bs.clusterSize.toNat + k -
            (xs.length * st.fs.bs.clusterSize.toNat + o) = k - o := by omega
        rw [if_pos hk, if_pos (by omega), hindex]
      · rw [if_neg hk, if_neg (by omega)]
    · -- the other clusters of the chain
      have hout : ¬ (xs.length * st.fs.bs.clusterSize.toNat + o ≤ p ∧
          p < xs.length * st.fs.bs.clusterSize.toNat + o + n) := by
        rintro ⟨hle, hlt⟩
        apply hat
        have hlow : xs.length * st.fs.bs.clusterSize.toNat ≤ p := by omega
        have hhigh : p < (xs.length + 1) * st.fs.bs.clusterSize.toNat := by
          rw [Nat.add_mul, Nat.one_mul]
          omega
        have hdiv := (Nat.le_div_iff_mul_le hpos).mpr hlow
        have hdiv' := (Nat.div_lt_iff_lt_mul hpos).mpr hhigh
        omega
      rw [if_neg hout, fileByte, fileByte, hfs]
      cases hd : (xs ++ c :: ys)[p / st.fs.bs.clusterSize.toNat]? with
      | none => rfl
      | some d =>
        have hne : d ≠ c := by
          rintro rfl
          have hlt : p / st.fs.bs.clusterSize.toNat < (xs ++ d :: ys).length :=
            (List.getElem?_eq_some_iff.mp hd).1
          have hself : (xs ++ d :: ys)[xs.length]? = some d := by
            rw [List.getElem?_append_right le_rfl, Nat.sub_self]
            rfl
          exact hat ((List.getElem?_inj hlt hchained.nodup).mp (hd.trans hself.symm))
        have hbyte := hbytes d (hchained.clusters d (List.mem_of_getElem? hd)) _ hmod
        rw [if_neg hne] at hbyte
        exact congrArg some hbyte

/-! ## Writing -/

section write

variable {size clusterOffset written : UInt32} {buffer : ℕ → UInt8}

theorem toNat_copySize {clusterSize : UInt32} (h : clusterOffset ≤ clusterSize) :
    (copySize clusterSize clusterOffset size).toNat =
      min (clusterSize.toNat - clusterOffset.toNat) size.toNat := by
  have hsub := UInt32.toNat_sub_of_le _ _ h
  unfold copySize
  split
  · rename_i hgt
    have hlt := UInt32.lt_iff_toNat_lt.mp hgt
    omega
  · rename_i hle
    have hge := UInt32.le_iff_toNat_le.mp (UInt32.not_lt.mp hle)
    omega

/-- The buffer holds the cluster, unless all of it is replaced. -/
theorem loadForWrite_spec (hok : ∀ n, dev.ok n = true) (hsmall : SmallVolume st.fs) (page : UInt64)
    (size c clusterOffset : UInt32) (buf : ℕ → UInt8) :
    ∃ old t, loadForWrite dev st page st.fs.bs.clusterSize size c clusterOffset buf = (old, t) ∧
      SameVolume st t ∧ (clusterOffset ≠ 0 ∨ size < st.fs.bs.clusterSize →
        ∀ k < st.fs.bs.clusterSize.toNat, old k = clusterByte st c k) := by
  rw [loadForWrite]
  by_cases hpart : clusterOffset ≠ 0 ∨ size < st.fs.bs.clusterSize
  · obtain ⟨old, t, hread, hsame, -, hbytes⟩ := @fat32ReadCluster_ok dev st hok c page buf
    rw [if_pos hpart, hread]
    rw [← hsmall.mounted.toNat_clusterSize] at hbytes
    exact ⟨old, t, rfl, hsame, fun _ => hbytes⟩
  · rw [if_neg hpart]
    exact ⟨buf, st, rfl, SameVolume.refl st, fun h => absurd h hpart⟩

/-- One round: the part of a write that goes to one cluster. -/
theorem writeRound_spec (hok : ∀ n, dev.ok n = true) (hsmall : SmallVolume st.fs)
    (hchained : Chained st (xs ++ c :: ys)) (page : UInt64) {n : UInt32}
    (hn : n.toNat = min (st.fs.bs.clusterSize.toNat - clusterOffset.toNat) size.toNat)
    (hoffset : clusterOffset < st.fs.bs.clusterSize) (buf : ℕ → UInt8) :
    ∃ old t u, loadForWrite dev st page st.fs.bs.clusterSize size c clusterOffset buf = (old, t) ∧
      (fat32WriteCluster dev t c page fun i =>
        if clusterOffset.toNat ≤ i ∧ i < clusterOffset.toNat + n.toNat then
          buffer (written.toNat + (i - clusterOffset.toNat)) else old i) = (true, u) ∧
      Wrote st u (xs ++ c :: ys) (xs ++ c :: ys)
        (xs.length * st.fs.bs.clusterSize.toNat + clusterOffset.toNat) n.toNat
        fun k => buffer (written.toNat + k) := by
  have hlt := UInt32.lt_iff_toNat_lt.mp hoffset
  have hcluster := hchained.clusters c (List.mem_append_right xs List.mem_cons_self)
  obtain ⟨old, t, hload, hsame, hold⟩ := loadForWrite_spec hok hsmall page size c clusterOffset buf
  have hsmall' : SmallVolume t.fs := hsame.fs ▸ hsmall
  obtain ⟨u, hwrite, hfs, hcache, hbytes⟩ := fat32WriteCluster_spec hok hsmall' hcluster page
    fun i => if clusterOffset.toNat ≤ i ∧ i < clusterOffset.toNat + n.toNat then
      buffer (written.toNat + (i - clusterOffset.toNat)) else old i
  have hbytes' : ∀ d, IsCluster d → ∀ k < st.fs.bs.clusterSize.toNat, clusterByte u d k =
      if d = c then if clusterOffset.toNat ≤ k ∧ k < clusterOffset.toNat + n.toNat then
        buffer (written.toNat + (k - clusterOffset.toNat)) else old k
      else clusterByte st d k := by
    intro d hd k hk
    rw [hbytes d hd k (by rwa [hsame.fs]), clusterByte, clusterByte, hsame.fs, hsame.disk]
  refine ⟨old, t, u, hload, hwrite, Wrote.of_cluster hsmall hchained (by omega) ?_
    (hfs.trans hsame.fs) (hcache.trans hsame.fatCache) hbytes'⟩
  intro k hk
  by_cases hin : clusterOffset.toNat ≤ k ∧ k < clusterOffset.toNat + n.toNat
  · rw [if_pos hin, if_pos hin]
  · rw [if_neg hin, if_neg hin]
    refine hold ?_ k hk
    -- a byte that is not replaced
    by_contra hall
    obtain ⟨hzero, hge⟩ := not_or.mp hall
    rw [not_ne_iff.mp hzero, UInt32.toNat_zero] at hin hn
    have hsize := UInt32.le_iff_toNat_le.mp (UInt32.not_lt.mp hge)
    omega

/-- The copying loop of `fat32_write` writes what it counts. -/
theorem writeClusters_spec (hok : ∀ n, dev.ok n = true) (hsmall : SmallVolume st.fs)
    (hcopies : st.fs.bs.numFats ≠ 0) (hchained : Chained st (xs ++ c :: ys)) (page : UInt64)
    {rounds : ℕ} (hrounds : size.toNat ≤ rounds) (hoffset : clusterOffset < st.fs.bs.clusterSize)
    (hlimit : written.toNat + size.toNat < 2 ^ 32) (buf : ℕ → UInt8) :
    ∃ w ok t chain', writeClusters dev page st.fs.bs.clusterSize buffer rounds size c clusterOffset
        buf written st = (w, ok, t) ∧ written.toNat ≤ w.toNat ∧
      Wrote st t (xs ++ c :: ys) chain'
        (xs.length * st.fs.bs.clusterSize.toNat + clusterOffset.toNat) (w.toNat - written.toNat)
        fun k => buffer (written.toNat + k) := by
  induction rounds generalizing size clusterOffset written buf st xs c ys with
  | zero =>
    refine ⟨written, true, st, xs ++ c :: ys, rfl, le_rfl, ?_⟩
    rw [Nat.sub_self]
    exact Wrote.of_same hsmall hchained (SameVolume.refl st)
  -- each round writes up to the end of one cluster, and the next takes or adds a cluster
  | succ rounds ih =>
    by_cases hsize : size = 0
    · refine ⟨written, true, st, xs ++ c :: ys, ?_, le_rfl, ?_⟩
      · rw [writeClusters, if_pos hsize]
      · rw [Nat.sub_self]
        exact Wrote.of_same hsmall hchained (SameVolume.refl st)
    · have hlt := UInt32.lt_iff_toNat_lt.mp hoffset
      have hn := @toNat_copySize size clusterOffset st.fs.bs.clusterSize
        (UInt32.le_of_lt hoffset)
      have hpos : 0 < size.toNat := Nat.pos_of_ne_zero fun hzero => hsize (UInt32.toNat_inj.mp hzero)
      obtain ⟨old, t, u, hload, hwrite, hwrote⟩ := @writeRound_spec dev st xs ys c size clusterOffset
        written buffer hok hsmall hchained page _ hn hoffset buf
      rw [writeClusters, if_neg hsize, hload]
      dsimp only
      rw [hwrite]
      dsimp only
      generalize copySize st.fs.bs.clusterSize clusterOffset size = n at hn hwrote
      have hle : n ≤ size := UInt32.le_iff_toNat_le.mpr (by omega)
      have hsub := UInt32.toNat_sub_of_le _ _ hle
      have hadd : (written + n).toNat = written.toNat + n.toNat := by
        rw [UInt32.toNat_add, Nat.mod_eq_of_lt (by omega)]
      have hcount : (written + n).toNat - written.toNat = n.toNat := by omega
      by_cases hmore : size - n > 0
      · have hmore' := UInt32.lt_iff_toNat_lt.mp hmore
        rw [UInt32.toNat_zero, hsub] at hmore'
        have hsmall' : SmallVolume u.fs := hwrote.fs ▸ hsmall
        have hcopies' : u.fs.bs.numFats ≠ 0 := hwrote.fs ▸ hcopies
        rw [if_pos hmore]
        rcases nextCluster_spec (xs.length * st.fs.bs.clusterSize.toNat + clusterOffset.toNat +
            n.toNat) (fun k => buffer (written.toNat + n.toNat + k)) hok hsmall' hcopies'
            hwrote.chained with ⟨v, hnext, hgrown⟩ | ⟨d, zs, v, hnext, hgrown⟩
        · -- no cluster is left: the loop stops with what it has written
          refine ⟨written + n, false, v, xs ++ c :: ys, ?_, by omega, ?_⟩
          · rw [hnext]
          · rw [hcount]
            exact hwrote.trans hsmall hgrown rfl fun k => by rw [Nat.add_assoc]
        · have hfs : v.fs = st.fs := hgrown.fs.trans hwrote.fs
          have hsmall'' : SmallVolume v.fs := hfs ▸ hsmall
          have hcopies'' : v.fs.bs.numFats ≠ 0 := hfs ▸ hcopies
          have hchained' := hgrown.chained
          rw [List.append_cons] at hchained'
          have hzero : (0 : UInt32) < v.fs.bs.clusterSize := by
            rw [hfs, UInt32.lt_iff_toNat_lt]
            exact hsmall.clusterSize_pos
          -- the rest is written from the start of the next cluster, with the round's buffer
          obtain ⟨w, ok, t', chain', hloop, hw, hrest⟩ := @ih v (xs ++ [c]) zs d (size - n) 0
            (written + n) hsmall'' hcopies'' hchained' (by omega) hzero (by omega)
            fun i => if clusterOffset.toNat ≤ i ∧ i < clusterOffset.toNat + n.toNat then
              buffer (written.toNat + (i - clusterOffset.toNat)) else old i
          rw [hfs] at hloop
          rw [hnext]
          refine ⟨w, ok, t', chain', hloop, by omega, ?_⟩
          have hround := hwrote.trans hsmall hgrown rfl fun k => by rw [Nat.add_assoc]
          rw [← List.append_cons] at hrest
          have hnext' : (xs ++ [c]).length * v.fs.bs.clusterSize.toNat + (0 : UInt32).toNat =
              xs.length * st.fs.bs.clusterSize.toNat + clusterOffset.toNat + (n.toNat + 0) := by
            rw [hfs, List.length_append, List.length_singleton, Nat.add_mul, UInt32.toNat_zero]
            omega
          have hall := hround.trans hsmall hrest hnext' fun k => by
            rw [hadd, Nat.add_zero, Nat.add_assoc]
          have htotal : n.toNat + 0 + (w.toNat - (written + n).toNat) =
              w.toNat - written.toNat := by omega
          rwa [htotal] at hall
      · refine ⟨written + n, true, u, xs ++ c :: ys, ?_, by omega, ?_⟩
        · rw [if_neg hmore]
        · rw [hcount]
          exact hwrote

/-! ### The call -/

/-- Where a chain with this first cluster begins. -/
def entry (firstCluster : UInt32) : Option UInt32 :=
  if firstCluster = 0 ∨ endOfChain ≤ firstCluster then none else some firstCluster

/-- The node of a file with this chain. -/
def Heads (node : Node) (chain : List UInt32) : Prop :=
  ∃ data, node.data = some data ∧ chain.head? = entry data.firstCluster

variable {chain chain' : List UInt32} {start n : ℕ} {bytes : ℕ → UInt8}

theorem Chained.length_le (h : Chained st chain) : chain.length ≤ 1024 := by
  have hnodup : (chain.map UInt32.toNat).Nodup :=
    h.nodup.map fun a b hab => UInt32.toNat_inj.mp hab
  have hsub : chain.map UInt32.toNat ⊆ List.range 1024 := by
    intro k hk
    obtain ⟨c, hc, rfl⟩ := List.mem_map.mp hk
    exact List.mem_range.mpr (h.clusters c hc).toNat.2
  have hle := (List.subperm_of_subset hnodup hsub).length_le
  rwa [List.length_map, List.length_range] at hle

/-- No chain has room for 2³¹ bytes. -/
theorem Wrote.count_le (hsmall : SmallVolume st.fs) (h : Wrote st st' chain chain' start n bytes) :
    n ≤ 2 ^ 22 := by
  by_cases hpos : 0 < n
  · have hin := h.inside hpos
    have hsectors : st.fs.bs.sectorsPerCluster.toNat ≤ 8 :=
      UInt8.le_iff_toNat_le.mp hsmall.sectors
    have hsize : st.fs.bs.clusterSize.toNat ≤ 4096 := by
      rw [hsmall.mounted.toNat_clusterSize]
      omega
    have hroom := Nat.mul_le_mul h.chained.length_le hsize
    omega
  · omega

/-- The volume is not changed any more. -/
theorem Wrote.same (hsmall : SmallVolume st.fs) (h : Wrote st st' chain chain' start n bytes)
    {st'' : Volume} (hsame : SameVolume st' st'') : Wrote st st'' chain chain' start n bytes := by
  have hsmall' : SmallVolume st'.fs := h.fs ▸ hsmall
  have hlast : Wrote st' st'' chain' chain' (start + n) 0 fun k => bytes (n + k) :=
    Wrote.of_same hsmall' h.chained hsame
  exact h.trans hsmall hlast rfl fun _ => rfl

theorem toNat_countValue {w : UInt32} (h : w.toNat < 2 ^ 31) : (countValue w).toNat = w.toNat := by
  have hint : countValue w = w.toBitVec.toInt := rfl
  rw [hint, BitVec.toInt_eq_toNat_of_lt (by change 2 * w.toNat < 2 ^ 32; omega)]
  rfl

theorem startCluster_spec (start : ℕ) (bytes : ℕ → UInt8) (hok : ∀ n, dev.ok n = true)
    (hsmall : SmallVolume st.fs) (hcopies : st.fs.bs.numFats ≠ 0) {first : UInt32}
    (hfirst : chain.head? = entry first) (hchained : Chained st chain) :
    (∃ t, startCluster dev st first = (0, t) ∧ SameVolume st t) ∨
      ∃ c ys t, startCluster dev st first = (c, t) ∧ IsCluster c ∧
        Wrote st t chain (c :: ys) start 0 bytes := by
  rw [startCluster]
  by_cases hnone : first = 0 ∨ first ≥ endOfChain
  · rw [entry, if_pos hnone] at hfirst
    obtain rfl := List.head?_eq_none_iff.mp hfirst
    rw [if_pos hnone]
    rcases fat32AllocCluster_spec hok hsmall with ⟨t, halloc, hsame⟩ | ⟨r, t, halloc, hr⟩
    · exact Or.inl ⟨t, halloc, hsame⟩
    · exact Or.inr ⟨r, [], t, halloc, hr.cluster, hr.first start bytes hsmall hcopies⟩
  · rw [entry, if_neg hnone] at hfirst
    obtain ⟨ys, rfl⟩ := List.head?_eq_some_iff.mp hfirst
    right
    rw [if_neg hnone]
    exact ⟨first, ys, st, rfl, hchained.clusters first List.mem_cons_self,
      Wrote.of_same hsmall hchained (SameVolume.refl st)⟩

theorem Heads.of_grown {node : Node} {data : NodeData} {c : UInt32} {ys : List UInt32}
    (hdata : node.data = some data) (hfirst : data.firstCluster = c) (hc : IsCluster c)
    (hgrown : c :: ys <+: chain) : Heads node chain := by
  have hnone : ¬ (c = 0 ∨ endOfChain ≤ c) :=
    not_or.mpr ⟨hc.ne_zero, UInt32.not_le.mpr hc.lt_endOfChain⟩
  obtain ⟨rest, rfl⟩ := hgrown
  refine ⟨data, hdata, ?_⟩
  rw [hfirst, entry, if_neg hnone]
  rfl

theorem toNat_skip {offset : UInt64} {clusterSize : UInt32} (h : offset.toNat < 2 ^ 32) :
    (offset / clusterSize.toUInt64).toUInt32.toNat = offset.toNat / clusterSize.toNat := by
  have hle := Nat.div_le_self offset.toNat clusterSize.toNat
  rw [UInt64.toNat_toUInt32, UInt64.toNat_div, UInt32.toNat_toUInt64, Nat.mod_eq_of_lt (by omega)]

theorem toNat_part {offset : UInt64} {clusterSize : UInt32} (h : offset.toNat < 2 ^ 32) :
    (offset % clusterSize.toUInt64).toUInt32.toNat = offset.toNat % clusterSize.toNat := by
  have hle := Nat.mod_le offset.toNat clusterSize.toNat
  rw [UInt64.toNat_toUInt32, UInt64.toNat_mod, UInt32.toNat_toUInt64, Nat.mod_eq_of_lt (by omega)]

/-- `fat32_write` writes as many bytes as it returns, and no others. -/
theorem fat32Write_spec (hok : ∀ n, dev.ok n = true) (hsmall : SmallVolume st.fs)
    (hcopies : st.fs.bs.numFats ≠ 0) {node : Node} (hnode : Heads node chain)
    (hchained : Chained st chain) {offset : UInt64}
    (hlimit : offset.toNat + size.toNat < 2 ^ 32) (buffer : ℕ → UInt8) :
    ∃ r node' t chain', fat32Write dev st node offset size buffer = (r, node', t) ∧
      Heads node' chain' ∧ Wrote st t chain chain' offset.toNat r.toNat buffer := by
  obtain ⟨data, hdata, hhead⟩ := hnode
  have hsmallOffset : offset.toNat < 2 ^ 32 := by omega
  have hskip := @toNat_skip offset st.fs.bs.clusterSize hsmallOffset
  have hpart := @toNat_part offset st.fs.bs.clusterSize hsmallOffset
  unfold fat32Write
  rw [hdata]
  dsimp only
  rcases startCluster_spec offset.toNat buffer hok hsmall hcopies hhead hchained with
    ⟨t, hstart, hsame⟩ | ⟨c, ys, t, hstart, hc, hfirst⟩
  · -- no first cluster could be taken, and nothing is written
    rw [hstart]
    exact ⟨-1, node, t, chain, rfl, ⟨data, hdata, hhead⟩, Wrote.of_same hsmall hchained hsame⟩
  · have hsmall' : SmallVolume t.fs := hfirst.fs ▸ hsmall
    have hcopies' : t.fs.bs.numFats ≠ 0 := hfirst.fs ▸ hcopies
    have hchained' : Chained t ([] ++ c :: ys) := hfirst.chained
    rw [hstart]
    dsimp only
    rw [if_neg hc.ne_zero, hskip]
    rcases skipExtending_spec offset.toNat buffer hok hsmall' hcopies' hchained'
      (offset.toNat / st.fs.bs.clusterSize.toNat) with
      ⟨chain', u, hgo, hgrown⟩ | ⟨ws, d, zs, u, hgo, hlen, hgrown⟩
    · -- the chain could not be extended as far as the offset
      rw [hgo]
      exact ⟨0, _, u, chain', rfl, Heads.of_grown rfl rfl hc hgrown.grown,
        hfirst.after hsmall hgrown⟩
    · have hreached := hfirst.after hsmall hgrown
      have hsmall'' : SmallVolume u.alloc.2.fs := hreached.fs ▸ hsmall
      have hcopies'' : u.alloc.2.fs.bs.numFats ≠ 0 := hreached.fs ▸ hcopies
      have hbuffer : SameVolume u u.alloc.2 := ⟨rfl, rfl, rfl⟩
      have halloc := hreached.after hsmall
        (Wrote.of_same (hreached.fs ▸ hsmall) hreached.chained hbuffer)
      have hoffset : (offset % st.fs.bs.clusterSize.toUInt64).toUInt32 <
          u.alloc.2.fs.bs.clusterSize := by
        rw [halloc.fs, UInt32.lt_iff_toNat_lt, hpart]
        exact Nat.mod_lt _ hsmall.clusterSize_pos
      have hlimit' : (0 : UInt32).toNat + size.toNat < 2 ^ 32 := by
        rw [UInt32.toNat_zero]
        omega
      obtain ⟨w, ok, v, chain', hloop, -, hwrote⟩ := @writeClusters_spec dev u.alloc.2 ws zs d size _
        0 buffer hok hsmall'' hcopies'' halloc.chained u.alloc.1 size.toNat le_rfl hoffset hlimit'
        (dev.leftover u.alloc.1)
      -- whole clusters skipped and the part inside one make up the offset
      have hplace : ws.length * u.alloc.2.fs.bs.clusterSize.toNat +
          (offset % st.fs.bs.clusterSize.toUInt64).toUInt32.toNat = offset.toNat := by
        have hdiv := Nat.div_add_mod offset.toNat st.fs.bs.clusterSize.toNat
        rw [Nat.mul_comm] at hdiv
        rw [halloc.fs, hpart, hlen, List.length_nil, Nat.zero_add, hdiv]
      have hbytes : (fun k => buffer ((0 : UInt32).toNat + k)) = buffer := by
        funext k
        rw [UInt32.toNat_zero, Nat.zero_add]
      rw [hplace, hbytes, UInt32.toNat_zero, Nat.sub_zero] at hwrote
      have hfree : SameVolume v (v.free u.alloc.1) := ⟨rfl, rfl, rfl⟩
      have hall := (halloc.after hsmall hwrote).same hsmall hfree
      have hcount : (countValue w).toNat = w.toNat := by
        have hle := hall.count_le hsmall
        exact toNat_countValue (by omega)
      rw [← hcount] at hall
      rw [halloc.fs] at hloop
      have hstays := hgrown.grown.trans hwrote.grown
      rw [hgo]
      dsimp only
      rw [hloop]
      cases ok with
      | false => exact ⟨_, _, _, chain', rfl, Heads.of_grown rfl rfl hc hstays, hall⟩
      | true =>
        refine ⟨_, _, _, chain', rfl, ?_, hall⟩
        split
        · exact Heads.of_grown rfl rfl hc hstays
        · exact Heads.of_grown rfl rfl hc hstays

end write

/-! ## Reading -/

section read

variable {size clusterOffset : UInt32} {chain : List UInt32}

theorem skipClusters_same (n : ℕ) (c : UInt32) (st : Volume) :
    SameVolume st (skipClusters n c st).2 := by
  induction n generalizing c st with
  | zero => exact SameVolume.refl st
  | succ n ih =>
    have hget := fat32GetFatEntry_same st c
    rw [skipClusters]
    generalize fat32GetFatEntry st c = out at hget
    obtain ⟨entry, t⟩ := out
    dsimp only at hget ⊢
    split
    · exact hget
    · exact hget.trans (ih entry t)

theorem readClusters_same (page : UInt64) (clusterSize : UInt32) (rounds : ℕ)
    (size c clusterOffset : UInt32) (buf : ℕ → UInt8) (bytes : List UInt8) (st : Volume) :
    SameVolume st (readClusters dev page clusterSize rounds size c clusterOffset buf bytes st).2 ∧
      bytes <+: (readClusters dev page clusterSize rounds size c clusterOffset buf bytes st).1 := by
  induction rounds generalizing size c clusterOffset buf bytes st with
  | zero => exact ⟨SameVolume.refl st, List.prefix_rfl⟩
  | succ rounds ih =>
    rw [readClusters]
    split
    · have hread : SameVolume st (fat32ReadCluster dev st c page buf).2.2 := ⟨rfl, rfl, rfl⟩
      generalize fat32ReadCluster dev st c page buf = out at hread
      obtain ⟨ok, buf', t⟩ := out
      cases ok with
      | false => exact ⟨hread, List.prefix_rfl⟩
      | true =>
        obtain ⟨hsame, hgrown⟩ := ih (size - copySize clusterSize clusterOffset size)
          (fat32GetFatEntry t c).1 0 buf' (bytes ++ (List.range (copySize clusterSize clusterOffset
            size).toNat).map fun i => buf' (clusterOffset.toNat + i)) (fat32GetFatEntry t c).2
        exact ⟨(hread.trans (fat32GetFatEntry_same t c)).trans hsame,
          (List.prefix_append _ _).trans hgrown⟩
    · exact ⟨SameVolume.refl st, List.prefix_rfl⟩

theorem fat32Read_same (st : Volume) (node : Node) (offset : UInt64) (size : UInt32) :
    SameVolume st (fat32Read dev st node offset size).2.2 := by
  unfold fat32Read
  cases node.data with
  | none => exact SameVolume.refl st
  | some data =>
    dsimp only
    split
    · exact SameVolume.refl st
    · have hskip := skipClusters_same
        (offset / st.fs.bs.clusterSize.toUInt64).toUInt32.toNat data.firstCluster st
      generalize skipClusters (offset / st.fs.bs.clusterSize.toUInt64).toUInt32.toNat
        data.firstCluster st = out at hskip
      obtain ⟨found, t⟩ := out
      cases found with
      | none => exact hskip
      | some c =>
        have halloc : SameVolume t t.alloc.2 := ⟨rfl, rfl, rfl⟩
        have hloop {clusterSize size clusterOffset : UInt32} := (@readClusters_same dev t.alloc.1
          clusterSize size.toNat size c clusterOffset (dev.leftover t.alloc.1) [] t.alloc.2).1
        have hfree (u : Volume) : SameVolume u (u.free t.alloc.1) := ⟨rfl, rfl, rfl⟩
        exact ((hskip.trans halloc).trans hloop).trans (hfree _)

/-- Along the chain, as far as it goes. -/
theorem skipClusters_spec (hsmall : SmallVolume st.fs) (hchained : Chained st (xs ++ c :: ys))
    (n : ℕ) :
    (skipClusters n c st).1 = none ∧ ys.length < n ∨
      ∃ ws d zs, (skipClusters n c st).1 = some d ∧ ws.length = xs.length + n ∧
        xs ++ c :: ys = ws ++ d :: zs := by
  induction n generalizing xs c ys st with
  | zero => exact Or.inr ⟨xs, c, ys, rfl, rfl, rfl⟩
  | succ n ih =>
    obtain ⟨hentry, hsame⟩ := fat32GetFatEntry_cached hsmall.mounted.cached c
    rw [skipClusters]
    generalize fat32GetFatEntry st c = out at hentry hsame
    obtain ⟨link, t⟩ := out
    dsimp only at hentry hsame ⊢
    rw [hentry]
    cases ys with
    | nil =>
      rw [if_pos hchained.link_end]
      exact Or.inl ⟨rfl, Nat.succ_pos n⟩
    | cons d zs =>
      obtain ⟨hlt, hlink⟩ := hchained.link_next
      have hsmall' : SmallVolume t.fs := hsame.fs ▸ hsmall
      have hchained' : Chained t (xs ++ [c] ++ d :: zs) := by
        rw [← List.append_cons]
        exact hchained.congr fun e _ => hsame.fatLink e
      rw [if_neg hlt, hlink]
      rcases ih hsmall' hchained' with ⟨hnone, hlen⟩ | ⟨ws, e, zs', hsome, hlen, heq⟩
      · exact Or.inl ⟨hnone, Nat.succ_lt_succ hlen⟩
      · refine Or.inr ⟨ws, e, zs', hsome, ?_, (List.append_cons ..).trans heq⟩
        rw [hlen, List.length_append, List.length_singleton]
        omega

theorem SameVolume.fileByte (h : SameVolume st st') (chain : List UInt32) (p : ℕ) :
    fileByte st' chain p = fileByte st chain p := by
  rw [Fat32.fileByte, Fat32.fileByte, h.fs]
  unfold clusterByte
  rw [h.fs, h.disk]

/-- The copying loop of `fat32_read` reads what the chain holds. -/
theorem readClusters_spec (hok : ∀ n, dev.ok n = true) (hsmall : SmallVolume st.fs)
    (hchained : Chained st (xs ++ c :: ys)) (page : UInt64) {rounds : ℕ}
    (hrounds : size.toNat ≤ rounds) (hoffset : clusterOffset < st.fs.bs.clusterSize)
    (buf : ℕ → UInt8) (bytes : List UInt8) {k : ℕ} (hk : k < size.toNat) {b : UInt8}
    (hb : fileByte st (xs ++ c :: ys)
      (xs.length * st.fs.bs.clusterSize.toNat + clusterOffset.toNat + k) = some b) :
    (readClusters dev page st.fs.bs.clusterSize rounds size c clusterOffset buf bytes
      st).1[bytes.length + k]? = some b := by
  induction rounds generalizing size c clusterOffset buf bytes st xs ys k with
  | zero => omega
  | succ rounds ih =>
    have hcluster := hchained.clusters c (List.mem_append_right xs List.mem_cons_self)
    have hpos : size > 0 := by
      rw [gt_iff_lt, UInt32.lt_iff_toNat_lt, UInt32.toNat_zero]
      omega
    have hlt := UInt32.lt_iff_toNat_lt.mp hoffset
    have hn := @toNat_copySize size clusterOffset st.fs.bs.clusterSize (UInt32.le_of_lt hoffset)
    obtain ⟨buf', t, hread, hsame, -, hbytes⟩ := @fat32ReadCluster_ok dev st hok c page buf
    rw [← hsmall.mounted.toNat_clusterSize] at hbytes
    rw [readClusters, if_pos ⟨hpos, hcluster.lt_endOfChain⟩, hread]
    dsimp only
    generalize copySize st.fs.bs.clusterSize clusterOffset size = n at hn
    by_cases hin : k < n.toNat
    · -- in this cluster
      obtain ⟨-, rest, hrest⟩ := @readClusters_same dev page st.fs.bs.clusterSize rounds (size - n)
        (fat32GetFatEntry t c).1 0 buf' (bytes ++ (List.range n.toNat).map fun i =>
          buf' (clusterOffset.toNat + i)) (fat32GetFatEntry t c).2
      rw [Nat.add_assoc, fileByte_at hsmall (by omega)] at hb
      rw [← hrest, List.append_assoc, List.getElem?_append_right (Nat.le_add_right _ k),
        Nat.add_sub_cancel_left, List.getElem?_append_left, List.getElem?_map,
        List.getElem?_range hin]
      · rw [Option.map_some, hbytes _ (by omega)]
        exact hb
      · rwa [List.length_map, List.length_range]
    · have hfull : clusterOffset.toNat + n.toNat = st.fs.bs.clusterSize.toNat := by omega
      have hle : n ≤ size := UInt32.le_iff_toNat_le.mpr (by omega)
      have hsub := UInt32.toNat_sub_of_le _ _ hle
      have hsmall' : SmallVolume t.fs := hsame.fs ▸ hsmall
      obtain ⟨hentry, hsame'⟩ := fat32GetFatEntry_cached hsmall'.mounted.cached c
      rw [hsame.fatLink] at hentry
      generalize fat32GetFatEntry t c = out at hentry hsame'
      obtain ⟨link, u⟩ := out
      dsimp only at hentry hsame' ⊢
      have hboth := hsame.trans hsame'
      cases ys with
      | nil =>
        -- behind the chain there is nothing
        have hdiv : (xs ++ [c]).length ≤ (xs.length * st.fs.bs.clusterSize.toNat +
            clusterOffset.toNat + k) / st.fs.bs.clusterSize.toNat := by
          rw [Nat.le_div_iff_mul_le hsmall.clusterSize_pos, List.length_append,
            List.length_singleton, Nat.add_mul, Nat.one_mul]
          omega
        rw [fileByte, List.getElem?_eq_none hdiv] at hb
        cases hb
      | cons d zs =>
        have hsmall'' : SmallVolume u.fs := hboth.fs ▸ hsmall
        have hchained' : Chained u (xs ++ [c] ++ d :: zs) := by
          rw [← List.append_cons]
          exact hchained.congr fun e _ => hboth.fatLink e
        have hzero : (0 : UInt32) < u.fs.bs.clusterSize := by
          rw [hboth.fs, UInt32.lt_iff_toNat_lt]
          exact hsmall.clusterSize_pos
        have hplace : (xs ++ [c]).length * u.fs.bs.clusterSize.toNat + (0 : UInt32).toNat +
            (k - n.toNat) = xs.length * st.fs.bs.clusterSize.toNat + clusterOffset.toNat + k := by
          rw [hboth.fs, List.length_append, List.length_singleton, Nat.add_mul, UInt32.toNat_zero]
          omega
        have hb' : fileByte u (xs ++ [c] ++ d :: zs) ((xs ++ [c]).length *
            u.fs.bs.clusterSize.toNat + (0 : UInt32).toNat + (k - n.toNat)) = some b := by
          rw [hplace, hboth.fileByte, ← List.append_cons]
          exact hb
        have hrest := @ih u (xs ++ [c]) zs d (size - n) 0 hsmall'' hchained' (by omega) hzero buf'
          (bytes ++ (List.range n.toNat).map fun i => buf' (clusterOffset.toNat + i))
          (k - n.toNat) (by omega) hb'
        have hindex : bytes.length + n.toNat + (k - n.toNat) = bytes.length + k := by omega
        rw [List.length_append, List.length_map, List.length_range, hindex, hboth.fs] at hrest
        rw [hentry, hchained.link_next.2]
        exact hrest

/-- `fat32_read` reads what the chain holds, up to the size of the file. -/
theorem fat32Read_spec (hok : ∀ n, dev.ok n = true) (hsmall : SmallVolume st.fs) {node : Node}
    (hnode : Heads node chain) (hchained : Chained st chain) {offset : UInt64}
    (hlimit : offset.toNat + size.toNat < 2 ^ 32) {k : ℕ} (hk : k < size.toNat)
    (hsize : offset.toNat + k < node.size.toNat) {b : UInt8}
    (hb : fileByte st chain (offset.toNat + k) = some b) :
    (fat32Read dev st node offset size).2.1[k]? = some b := by
  obtain ⟨data, hdata, hhead⟩ := hnode
  have hoffset : offset.toNat < 2 ^ 32 := by omega
  have hinside : ¬ offset ≥ node.size.toUInt64 := by
    rw [ge_iff_le, UInt64.le_iff_toNat_le, UInt32.toNat_toUInt64]
    omega
  cases chain with
  | nil => cases hb
  | cons c ys =>
    have hfirst : data.firstCluster = c := by
      rw [entry] at hhead
      split at hhead
      · cases hhead
      · exact (Option.some.inj hhead).symm
    -- what is left of the request
    have hclip : k < (if offset + size.toUInt64 > node.size.toUInt64 then
        (node.size.toUInt64 - offset).toUInt32 else size).toNat := by
      split
      · have hle : offset ≤ node.size.toUInt64 := UInt64.le_of_lt (UInt64.not_le.mp hinside)
        have hnode := node.size.toNat_lt
        rw [UInt64.toNat_toUInt32, UInt64.toNat_sub_of_le _ _ hle, UInt32.toNat_toUInt64,
          Nat.mod_eq_of_lt (by omega)]
        omega
      · exact hk
    have hskip := skipClusters_same
      (offset / st.fs.bs.clusterSize.toUInt64).toUInt32.toNat c st
    have hspec := @skipClusters_spec st [] ys c hsmall hchained
      (offset / st.fs.bs.clusterSize.toUInt64).toUInt32.toNat
    unfold fat32Read
    rw [hdata]
    dsimp only
    rw [hfirst, if_neg hinside]
    generalize (if offset + size.toUInt64 > node.size.toUInt64 then
      (node.size.toUInt64 - offset).toUInt32 else size) = rest at hclip ⊢
    generalize skipClusters (offset / st.fs.bs.clusterSize.toUInt64).toUInt32.toNat c st = out
      at hskip hspec
    obtain ⟨found, t⟩ := out
    rcases hspec with ⟨-, hshort⟩ | ⟨ws, d, zs, hfound, hlen, hsplit⟩
    · -- the position is behind the chain
      rw [toNat_skip hoffset] at hshort
      have hdiv := @Nat.div_le_div_right offset.toNat (offset.toNat + k)
        st.fs.bs.clusterSize.toNat (Nat.le_add_right _ k)
      have hbeyond : (c :: ys).length ≤ (offset.toNat + k) / st.fs.bs.clusterSize.toNat := by
        rw [List.length_cons]
        omega
      rw [fileByte, List.getElem?_eq_none hbeyond] at hb
      cases hb
    · have hsame : SameVolume st t.alloc.2 := hskip.trans ⟨rfl, rfl, rfl⟩
      have hsmall' : SmallVolume t.alloc.2.fs := hsame.fs ▸ hsmall
      have hchained' : Chained t.alloc.2 (ws ++ d :: zs) := by
        rw [← hsplit]
        exact hchained.congr fun e _ => hsame.fatLink e
      have hoffset' : (offset % st.fs.bs.clusterSize.toUInt64).toUInt32 <
          t.alloc.2.fs.bs.clusterSize := by
        rw [hsame.fs, UInt32.lt_iff_toNat_lt, toNat_part hoffset]
        exact Nat.mod_lt _ hsmall.clusterSize_pos
      have hplace : ws.length * t.alloc.2.fs.bs.clusterSize.toNat +
          (offset % st.fs.bs.clusterSize.toUInt64).toUInt32.toNat = offset.toNat := by
        have hdiv := Nat.div_add_mod offset.toNat st.fs.bs.clusterSize.toNat
        rw [Nat.mul_comm] at hdiv
        rw [hsame.fs, toNat_part hoffset, hlen, toNat_skip hoffset, List.length_nil, Nat.zero_add,
          hdiv]
      have hb' : fileByte t.alloc.2 (ws ++ d :: zs) (ws.length *
          t.alloc.2.fs.bs.clusterSize.toNat +
            (offset % st.fs.bs.clusterSize.toUInt64).toUInt32.toNat + k) = some b := by
        rw [hplace, hsame.fileByte, ← hsplit]
        exact hb
      have hloop := @readClusters_spec dev t.alloc.2 ws zs d rest _ hok hsmall' hchained' t.alloc.1
        rest.toNat le_rfl hoffset' (dev.leftover t.alloc.1) [] k hclip b hb'
      rw [List.length_nil, Nat.zero_add, hsame.fs] at hloop
      obtain rfl : found = some d := hfound
      exact hloop

end read

end Rhoudveine.Fat32
