import Rhoudveine.Fat32.Contents

/-!
# Files side by side

Writes and reads of several files of a volume, in any order.  The chains of the files stay apart,
and a file holds what was last written to it.
-/

namespace Rhoudveine.Fat32
open Fs Mm

/-! ## Runs -/

/-- The nodes of files and directories, one each, and the bytes last written through them. -/
structure Files (ι : Type*) where
  vol : Volume
  nodes : ι → Node
  last : ι → ℕ → Option UInt8

inductive FileOp
  | read (offset : UInt64) (size : UInt32)
  | write (offset : UInt64) (size : UInt32) (buffer : ℕ → UInt8)

/-- No file reaches 4 GiB. -/
def FileOp.Fits : FileOp → Prop
  | .read offset size => offset.toNat + size.toNat < 2 ^ 32
  | .write offset size _ => offset.toNat + size.toNat < 2 ^ 32

/-- The bytes last written, after a write that returned `r`. -/
def writtenOver (last : ℕ → Option UInt8) (offset : UInt64) (r : ℤ) (buffer : ℕ → UInt8) (p : ℕ) :
    Option UInt8 :=
  if offset.toNat ≤ p ∧ p < offset.toNat + r.toNat then some (buffer (p - offset.toNat)) else last p

variable {ι : Type*}

def fileCall [DecidableEq ι] (dev : Device) (s : Files ι) (i : ι) : FileOp → Files ι
  | .read offset size => { s with vol := (fat32Read dev s.vol (s.nodes i) offset size).2.2 }
  | .write offset size buffer =>
    let out := fat32Write dev s.vol (s.nodes i) offset size buffer
    { vol := out.2.2
      nodes := Function.update s.nodes i out.2.1
      last := Function.update s.last i (writtenOver (s.last i) offset out.1 buffer) }

def fileStep [DecidableEq ι] (dev : Device) (s : Files ι) (c : ι × FileOp) (s' : Files ι) : Prop :=
  c.2.Fits ∧ fileCall dev s c.1 c.2 = s'

/-! ## Chains apart -/

/-- Every node has a chain, and no cluster is in two of them. -/
structure ChainedApart (st : Volume) (nodes : ι → Node) (chains : ι → List UInt32) : Prop where
  heads : ∀ i, Heads (nodes i) (chains i)
  chained : ∀ i, Chained st (chains i)
  apart : ∀ i j, i ≠ j → ∀ c ∈ chains i, c ∉ chains j

/-- Below its size, a file reads as it was last written. -/
def ReadsBack (dev : Device) (s : Files ι) : Prop :=
  ∀ (i : ι) (offset : UInt64) (size : UInt32), offset.toNat + size.toNat < 2 ^ 32 →
    ∀ k < size.toNat, offset.toNat + k < (s.nodes i).size.toNat →
      ∀ b, s.last i (offset.toNat + k) = some b →
        (fat32Read dev s.vol (s.nodes i) offset size).2.1[k]? = some b

/-- The chains hold what was last written. -/
structure Held (s : Files ι) (chains : ι → List UInt32) : Prop where
  apart : ChainedApart s.vol s.nodes chains
  bytes : ∀ i p b, s.last i p = some b → fileByte s.vol (chains i) p = some b

variable {dev : Device} {s s' : Files ι} {chains : ι → List UInt32}

theorem fileByte_append {st : Volume} {chain chain' : List UInt32} (h : chain <+: chain') {p : ℕ}
    {b : UInt8} (hb : fileByte st chain p = some b) : fileByte st chain' p = some b := by
  obtain ⟨rest, rfl⟩ := h
  obtain ⟨c, hc, hbyte⟩ := Option.map_eq_some_iff.mp hb
  have hlt := (List.getElem?_eq_some_iff.mp hc).1
  rw [fileByte, List.getElem?_append_left hlt, hc]
  exact congrArg some hbyte

variable [DecidableEq ι]

section other

variable {st st' : Volume} {chain chain' other : List UInt32} {start n : ℕ} {bytes : ℕ → UInt8}

/-- The new clusters of a chain were free, so they are not in another chain. -/
theorem Wrote.apart (h : Wrote st st' chain chain' start n bytes) (hother : Chained st other)
    (hapart : ∀ c ∈ other, c ∉ chain) : ∀ c ∈ other, c ∉ chain' := by
  intro c hc hmem
  exact hother.link_ne_zero hc (h.fresh c hmem (hapart c hc))

theorem Wrote.chained_other (h : Wrote st st' chain chain' start n bytes)
    (hother : Chained st other) (hapart : ∀ c ∈ other, c ∉ chain) : Chained st' other :=
  hother.congr fun c hc => h.links c (h.apart hother hapart c hc)

theorem Wrote.fileByte_other (hsmall : SmallVolume st.fs)
    (h : Wrote st st' chain chain' start n bytes) (hother : Chained st other)
    (hapart : ∀ c ∈ other, c ∉ chain) (p : ℕ) : fileByte st' other p = fileByte st other p :=
  fileByte_congr hsmall h.fs (fun c hc =>
    h.others c (hother.clusters c hc) (h.apart hother hapart c hc)) p

end other

theorem Held.read (h : Held s chains) (i : ι) (offset : UInt64) (size : UInt32) :
    Held (fileCall dev s i (.read offset size)) chains := by
  have hsame := @fat32Read_same dev s.vol (s.nodes i) offset size
  refine ⟨⟨h.apart.heads, fun j => ?_, h.apart.apart⟩, fun j p b hb => ?_⟩
  · exact (h.apart.chained j).congr fun c _ => hsame.fatLink c
  · exact (hsame.fileByte (chains j) p).trans (h.bytes j p b hb)

theorem Held.write (hok : ∀ n, dev.ok n = true) (hsmall : SmallVolume s.vol.fs)
    (hcopies : s.vol.fs.bs.numFats ≠ 0) (h : Held s chains) (i : ι) {offset : UInt64}
    {size : UInt32} (hlimit : offset.toNat + size.toNat < 2 ^ 32) (buffer : ℕ → UInt8) :
    ∃ chain', Held (fileCall dev s i (.write offset size buffer))
        (Function.update chains i chain') ∧
      (fileCall dev s i (.write offset size buffer)).vol.fs = s.vol.fs := by
  obtain ⟨r, node, t, chain', hcall, hheads, hwrote⟩ := fat32Write_spec hok hsmall hcopies
    (h.apart.heads i) (h.apart.chained i) hlimit buffer
  have hnext : fileCall dev s i (.write offset size buffer) =
      ⟨t, Function.update s.nodes i node,
        Function.update s.last i (writtenOver (s.last i) offset r buffer)⟩ := by
    rw [fileCall, hcall]
  have hother (j : ι) (hj : j ≠ i) : ∀ c ∈ chains j, c ∉ chains i := h.apart.apart j i hj
  rw [hnext]
  refine ⟨chain', ⟨⟨fun j => ?_, fun j => ?_, fun j k hjk c hc => ?_⟩, fun j p b hb => ?_⟩,
    hwrote.fs⟩
  · dsimp only
    by_cases hj : j = i
    · subst hj
      rw [Function.update_self, Function.update_self]
      exact hheads
    · rw [Function.update_of_ne hj, Function.update_of_ne hj]
      exact h.apart.heads j
  · by_cases hj : j = i
    · subst hj
      rw [Function.update_self]
      exact hwrote.chained
    · rw [Function.update_of_ne hj]
      exact hwrote.chained_other (h.apart.chained j) (hother j hj)
  · by_cases hj : j = i
    · subst hj
      rw [Function.update_self] at hc
      rw [Function.update_of_ne (Ne.symm hjk)]
      exact fun hmem =>
        hwrote.apart (h.apart.chained k) (hother k (Ne.symm hjk)) c hmem hc
    · rw [Function.update_of_ne hj] at hc
      -- the clusters the write added were free, so no other chain has them
      by_cases hk : k = i
      · subst hk
        rw [Function.update_self]
        exact hwrote.apart (h.apart.chained j) (hother j hj) c hc
      · rw [Function.update_of_ne hk]
        exact h.apart.apart j k hjk c hc
  · dsimp only at hb ⊢
    by_cases hj : j = i
    · subst hj
      rw [Function.update_self] at hb ⊢
      rw [hwrote.written p]
      rw [writtenOver] at hb
      split at hb
      · rename_i hin
        rw [if_pos hin]
        exact hb
      · rename_i hout
        rw [if_neg hout]
        exact fileByte_append hwrote.grown (h.bytes j p b hb)
    · -- the bytes of another file lie in clusters the write does not touch
      rw [Function.update_of_ne hj] at hb ⊢
      exact (hwrote.fileByte_other hsmall (h.apart.chained j) (hother j hj) p).trans
        (h.bytes j p b hb)

/-- A small volume with at least one FAT, on which the files are as they were written. -/
structure Intact (s : Files ι) : Prop where
  small : SmallVolume s.vol.fs
  copies : s.vol.fs.bs.numFats ≠ 0
  held : ∃ chains, Held s chains

theorem Intact.step (hok : ∀ n, dev.ok n = true) (h : Intact s) {c : ι × FileOp}
    (hs : fileStep dev s c s') : Intact s' := by
  obtain ⟨hsmall, hcopies, chains, hheld⟩ := h
  obtain ⟨i, op⟩ := c
  obtain ⟨hfits, rfl⟩ := hs
  cases op with
  | read offset size =>
    have hfs := (@fat32Read_same dev s.vol (s.nodes i) offset size).fs
    constructor
    · exact hfs ▸ hsmall
    · exact hfs ▸ hcopies
    · exact ⟨chains, hheld.read i offset size⟩
  | write offset size buffer =>
    obtain ⟨chain', hheld', hfs⟩ := hheld.write hok hsmall hcopies i hfits buffer
    constructor
    · exact hfs ▸ hsmall
    · exact hfs ▸ hcopies
    · exact ⟨_, hheld'⟩

omit [DecidableEq ι] in
theorem Intact.readsBack (hok : ∀ n, dev.ok n = true) (h : Intact s) : ReadsBack dev s := by
  obtain ⟨hsmall, -, chains, hheld⟩ := h
  intro i offset size hlimit k hk hsize b hb
  exact fat32Read_spec hok hsmall (hheld.apart.heads i) (hheld.apart.chained i) hlimit hk hsize
    (hheld.bytes i _ b hb)

theorem MountedFrom.small {st st' : Volume} {root : Node} (h : MountedFrom st st' root)
    (hsectors : st'.fs.bs.sectorsPerCluster ≤ 8) (hfat : st'.fs.bs.fatSize32 ≤ 8)
    (hclusters : st'.fs.bs.totalClusters ≤ 1024) : SmallVolume st'.fs := by
  refine ⟨h.mounted, ?_, hsectors, hfat, hclusters⟩
  have hbs : st'.fs.bs = BootSector.ofBytes st.disk := by
    rw [h.fs]
    rfl
  rw [hbs]
  exact h.fs

/-- A file that has no clusters yet. -/
def emptyFile : Node :=
  { page := 0
    name := []
    size := 0
    flags := vfsFile
    dataPage := 0
    data := some ⟨0, 2⟩ }

def twoFiles (st : Volume) : Files Bool := ⟨st, fun _ => emptyFile, fun _ _ => none⟩

theorem chainedApart_empty (st : Volume) : ChainedApart st (twoFiles st).nodes fun _ => [] where
  heads _ := ⟨_, rfl, rfl⟩
  chained _ := ⟨rfl, fun c hc => by cases hc⟩
  apart _ _ _ c hc := by cases hc

/-- One byte for each of the files. -/
def bothWritten : List (Bool × FileOp) :=
  [(false, .write 0 1 fun _ => 0x58), (true, .write 0 1 fun _ => 0x59)]

def afterWrites (st : Volume) : Files Bool :=
  fileCall goodDevice (fileCall goodDevice (twoFiles st) false (.write 0 1 fun _ => 0x58)) true
    (.write 0 1 fun _ => 0x59)

theorem run_bothWritten (st : Volume) :
    Run (fileStep goodDevice) (twoFiles st) bothWritten (afterWrites st) :=
  .cons ⟨show 0 + 1 < 2 ^ 32 by norm_num, rfl⟩
    (.cons ⟨show 0 + 1 < 2 ^ 32 by norm_num, rfl⟩ (.nil _))

/-- `smallDisk` with a FAT of eight sectors of which there is no copy, so that the clusters begin
where the FAT does. -/
def bareDisk (a : ℕ) : UInt8 := if a = 16 then 0 else if a = 36 then 8 else smallDisk 1 a

def bareVolume : ℤ × Option Node × Volume := fat32Mount goodDevice (unmounted bareDisk) none

end Rhoudveine.Fat32
