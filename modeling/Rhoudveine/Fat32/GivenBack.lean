import Rhoudveine.Fat32.Cycles
import Rhoudveine.Fat32.File
import Rhoudveine.Fat32.Handles

/-!
# Frames given back

The frames that a call of the driver holds on its way, and that it has given them all back at
each of its exits.
-/

namespace Rhoudveine.Fat32
open Fs Mm

/-! ## The frames held -/

/-- The allocator of `s` has handed out the frames in the list, the last one first, and no other. -/
structure Holds (s t : Pfa) (pages : List UInt64) : Prop where
  took : Took s t {p | p ∈ pages}
  free : ∀ p ∈ pages, FreeFrame s p
  nodup : pages.Nodup

namespace Holds

variable {s t : Pfa} {p : UInt64} {pages : List UInt64}

theorem nil (hs : WellFormed s) : Holds s s [] where
  took := (Took.refl hs).congr fun p _ => by simp
  free p hp := absurd hp List.not_mem_nil
  nodup := List.nodup_nil

theorem sameFree (h : Holds s t []) : SameFree s t :=
  (h.took.congr fun p _ => by simp).sameFree

/-- A successful `pfa_alloc`. -/
theorem alloc (h : Holds s t pages) (hpage : (pfaAlloc t).1 ≠ 0) :
    Holds s (pfaAlloc t).2 ((pfaAlloc t).1 :: pages) := by
  obtain ⟨hfree, hnew⟩ := (h.took.free_iff _).mp (pfaAlloc_free h.took.wf hpage)
  constructor
  · apply (h.took.trans (Took.alloc h.took.wf)).congr
    intro p _
    simp only [Set.mem_union, Set.mem_ofPred_eq, Set.mem_singleton_iff, List.mem_cons]
    exact or_comm
  · intro p hp
    rcases List.mem_cons.mp hp with rfl | hp
    · exact hfree
    · exact h.free p hp
  · exact List.nodup_cons.mpr ⟨hnew, h.nodup⟩

/-- A failing one. -/
theorem alloc_zero (h : Holds s t pages) (hpage : (pfaAlloc t).1 = 0) :
    Holds s (pfaAlloc t).2 pages := by
  rw [pfaAlloc_zero h.took.wf hpage]
  exact h

/-- `pfa_free` of the frame that was handed out last. -/
theorem give (hs : WellFormed s) (h : Holds s t (p :: pages)) : Holds s (pfaFree t p) pages := by
  obtain ⟨hnot, hnodup⟩ := List.nodup_cons.mp h.nodup
  constructor
  · apply (h.took.free hs (h.free p List.mem_cons_self)).congr
    intro q _
    simp only [Set.mem_sdiff, Set.mem_ofPred_eq, List.mem_cons, Set.mem_singleton_iff]
    constructor
    · exact fun hq => hq.1.resolve_left hq.2
    · intro hq
      refine ⟨Or.inr hq, ?_⟩
      rintro rfl
      exact hnot hq
  · exact fun q hq => h.free q (List.mem_cons_of_mem p hq)
  · exact hnodup

end Holds

/-! ## Reading and writing -/

variable {dev : Device} {st : Volume}

theorem skipClusters_pfa (n : ℕ) (c : UInt32) : (skipClusters n c st).2.pfa = st.pfa := by
  induction n generalizing c st with
  | zero => rfl
  | succ n ih =>
    have hget := @fat32GetFatEntry_pfa st c
    rw [skipClusters]
    generalize fat32GetFatEntry st c = out at hget
    obtain ⟨next, t⟩ := out
    dsimp only at hget ⊢
    split
    · exact hget
    · rw [ih, hget]

theorem readClusters_pfa (page : UInt64) (clusterSize : UInt32) (rounds : ℕ)
    (size cluster clusterOffset : UInt32) (buf : ℕ → UInt8) (bytes : List UInt8) :
    (readClusters dev page clusterSize rounds size cluster clusterOffset buf bytes st).2.pfa =
      st.pfa := by
  induction rounds generalizing size cluster clusterOffset buf bytes st with
  | zero => rfl
  | succ rounds ih =>
    rw [readClusters]
    split
    · have hread := @fat32ReadCluster_pfa dev st cluster page buf
      generalize fat32ReadCluster dev st cluster page buf = out at hread
      obtain ⟨ok, buf, t⟩ := out
      cases ok with
      | false => exact hread
      | true =>
        dsimp only at hread ⊢
        rw [ih, fat32GetFatEntry_pfa, hread]
    · rfl

theorem nextCluster_pfa (c : UInt32) : (nextCluster dev st c).2.pfa = st.pfa := by
  have hget := @fat32GetFatEntry_pfa st c
  unfold nextCluster
  generalize fat32GetFatEntry st c = out at hget
  obtain ⟨next, t⟩ := out
  dsimp only at hget ⊢
  split
  · have hextend := @fat32ExtendChain_pfa dev t c
    generalize fat32ExtendChain dev t c = out at hextend
    obtain ⟨new, u⟩ := out
    dsimp only at hextend ⊢
    rw [← hget, ← hextend]
    split <;> rfl
  · exact hget

theorem skipExtending_pfa (n : ℕ) (c : UInt32) : (skipExtending dev n c st).2.pfa = st.pfa := by
  induction n generalizing c st with
  | zero => rfl
  | succ n ih =>
    have hnext := @nextCluster_pfa dev st c
    rw [skipExtending]
    generalize nextCluster dev st c = out at hnext
    obtain ⟨next, t⟩ := out
    cases next with
    | none => exact hnext
    | some next =>
      dsimp only at hnext ⊢
      rw [ih, hnext]

theorem loadForWrite_pfa (page : UInt64) (clusterSize size cluster clusterOffset : UInt32)
    (buf : ℕ → UInt8) :
    (loadForWrite dev st page clusterSize size cluster clusterOffset buf).2.pfa = st.pfa := by
  unfold loadForWrite
  split <;> rfl

theorem writeClusters_pfa (page : UInt64) (clusterSize : UInt32) (buffer : ℕ → UInt8) (rounds : ℕ)
    (size cluster clusterOffset : UInt32) (buf : ℕ → UInt8) (written : UInt32) :
    (writeClusters dev page clusterSize buffer rounds size cluster clusterOffset buf written
      st).2.2.pfa = st.pfa := by
  induction rounds generalizing size cluster clusterOffset buf written st with
  | zero => rfl
  | succ rounds ih =>
    have hload := @loadForWrite_pfa dev st page clusterSize size cluster clusterOffset buf
    rw [writeClusters]
    split
    · rfl
    · generalize loadForWrite dev st page clusterSize size cluster clusterOffset buf = out at hload
      obtain ⟨old, t⟩ := out
      dsimp only at hload ⊢
      split
      · rename_i hwrite
        have hpfa := congrArg (fun out => out.2.pfa) hwrite
        exact hpfa.symm.trans hload
      · rename_i u hwrite
        have hpfa : u.pfa = t.pfa := (congrArg (fun out => out.2.pfa) hwrite).symm
        split
        · have hnext := @nextCluster_pfa dev u cluster
          generalize nextCluster dev u cluster = out at hnext
          obtain ⟨next, v⟩ := out
          dsimp only at hnext
          cases next with
          | none => exact hnext.trans (hpfa.trans hload)
          | some next =>
            dsimp only
            rw [ih, hnext, hpfa, hload]
        · exact hpfa.trans hload

theorem startCluster_pfa (c : UInt32) : (startCluster dev st c).2.pfa = st.pfa := by
  unfold startCluster
  split
  · exact fat32AllocCluster_pfa
  · rfl

theorem fat32Read_took (hs : WellFormed st.pfa) (node : Node) (offset : UInt64) (size : UInt32) :
    Took st.pfa (fat32Read dev st node offset size).2.2.pfa ∅ := by
  unfold fat32Read
  split
  · exact Took.refl hs
  · rename_i data hdata
    dsimp only
    split
    · exact Took.refl hs
    · have hskip := @skipClusters_pfa st (offset / st.fs.bs.clusterSize.toUInt64).toUInt32.toNat
        data.firstCluster
      generalize skipClusters (offset / st.fs.bs.clusterSize.toUInt64).toUInt32.toNat
        data.firstCluster st = out at hskip
      obtain ⟨start, t⟩ := out
      dsimp only at hskip
      cases start with
      | none => exact Took.of_eq hs hskip
      | some c =>
        dsimp only [Volume.alloc, Volume.free]
        rw [← hskip] at hs ⊢
        apply Took.buffer hs
        exact Took.of_eq (pfaAlloc_wellFormed hs) (readClusters_pfa _ _ _ _ _ _ _ _)

theorem fat32Write_took (hs : WellFormed st.pfa) (node : Node) (offset : UInt64) (size : UInt32)
    (buffer : ℕ → UInt8) : Took st.pfa (fat32Write dev st node offset size buffer).2.2.pfa ∅ := by
  unfold fat32Write
  split
  · exact Took.refl hs
  · rename_i data hdata
    have hstart := @startCluster_pfa dev st data.firstCluster
    dsimp only
    generalize startCluster dev st data.firstCluster = out at hstart
    obtain ⟨first, t⟩ := out
    dsimp only at hstart ⊢
    split
    · exact Took.of_eq hs hstart
    · have hskip := @skipExtending_pfa dev t
        (offset / st.fs.bs.clusterSize.toUInt64).toUInt32.toNat first
      generalize skipExtending dev (offset / st.fs.bs.clusterSize.toUInt64).toUInt32.toNat first t =
        out at hskip
      obtain ⟨start, u⟩ := out
      have hkept : u.pfa = st.pfa := hskip.trans hstart
      cases start with
      | none => exact Took.of_eq hs hkept
      | some c =>
        rw [← hkept] at hs ⊢
        have hbuffer (rest : UInt32 × Bool × Volume)
            (hrest : rest.2.2.pfa = (pfaAlloc u.pfa).2) :
            Took u.pfa (pfaFree rest.2.2.pfa (pfaAlloc u.pfa).1) ∅ :=
          Took.buffer hs (Took.of_eq (pfaAlloc_wellFormed hs) hrest)
        dsimp only [Volume.alloc, Volume.free]
        split <;> rename_i hwrite <;>
          exact hbuffer (_, _, _) ((congrArg (fun out => out.2.2.pfa) hwrite).symm.trans
            (writeClusters_pfa _ _ _ _ _ _ _ _ _))

/-! ## Failing mounts -/

theorem mountRoot_holds {s : Pfa} (hs : WellFormed s) {fsPage : UInt64}
    (h : Holds s st.pfa [st.fs.fatCachePage, fsPage]) (hfail : (mountRoot st fsPage).1 = -1) :
    Holds s (mountRoot st fsPage).2.2.pfa [] := by
  unfold mountRoot at *
  dsimp only [Volume.alloc, Volume.free] at *
  split
  · rename_i hpage
    exact ((h.alloc_zero hpage).give hs).give hs
  · rename_i hpage
    rw [if_neg hpage] at hfail
    split
    · rename_i hdata
      exact ((((h.alloc hpage).alloc_zero hdata).give hs).give hs).give hs
    · rename_i hdata
      rw [if_neg hdata] at hfail
      cases hfail

theorem mountVolume_holds {s : Pfa} (hs : WellFormed s) {device : Option Str} {fsPage : UInt64}
    {bs : BootSector} (h : Holds s st.pfa [fsPage])
    (hfail : (mountVolume dev st device fsPage bs).1 = -1) :
    Holds s (mountVolume dev st device fsPage bs).2.2.pfa [] := by
  unfold mountVolume at *
  dsimp only [Volume.alloc, Volume.free] at *
  split
  · exact h.give hs
  · rename_i hmatches
    rw [if_neg hmatches] at hfail
    split
    · exact h.give hs
    · rename_i hvalid
      rw [if_neg hvalid] at hfail
      split
      · rename_i hcache
        exact (h.alloc_zero hcache).give hs
      · rename_i hcache
        rw [if_neg hcache] at hfail
        have hheld := h.alloc hcache
        split
        · rename_i t hread
          have hpfa : t.pfa = (pfaAlloc st.pfa).2 := (congrArg (fun out => out.2.2.pfa) hread).symm
          rw [← hpfa] at hheld
          exact (hheld.give hs).give hs
        · rename_i buf t hread
          have hpfa : t.pfa = (pfaAlloc st.pfa).2 := (congrArg (fun out => out.2.2.pfa) hread).symm
          rw [hread] at hfail
          rw [← hpfa] at hheld
          exact mountRoot_holds hs hheld hfail

theorem fat32Mount_holds (hs : WellFormed st.pfa) {device : Option Str}
    (hfail : (fat32Mount dev st device).1 = -1) :
    Holds st.pfa (fat32Mount dev st device).2.2.pfa [] := by
  have h := Holds.nil hs
  unfold fat32Mount at *
  dsimp only [Volume.alloc, Volume.free] at *
  split
  · rename_i hfs
    exact h.alloc_zero hfs
  · rename_i hfs
    rw [if_neg hfs] at hfail
    have hfirst := h.alloc hfs
    split
    · rename_i hpage
      exact (hfirst.alloc_zero hpage).give hs
    · rename_i hpage
      rw [if_neg hpage] at hfail
      have hboth := hfirst.alloc hpage
      split
      · rename_i t hread
        have hpfa : t.pfa = (pfaAlloc (pfaAlloc st.pfa).2).2 :=
          (congrArg (fun out => out.2.2.pfa) hread).symm
        rw [← hpfa] at hboth
        exact (hboth.give hs).give hs
      · rename_i buf t hread
        have hpfa : t.pfa = (pfaAlloc (pfaAlloc st.pfa).2).2 :=
          (congrArg (fun out => out.2.2.pfa) hread).symm
        rw [hread] at hfail
        rw [← hpfa] at hboth
        exact mountVolume_holds hs (hboth.give hs) hfail

/-! ## All calls -/

inductive FsCall
  | read (node : Node) (offset : UInt64) (size : UInt32)
  | write (node : Node) (offset : UInt64) (size : UInt32) (buffer : ℕ → UInt8)
  | createEntry (parent : Node) (name : Str) (attr : UInt8)
  | finddir (node : Node) (name : Str)
  | readdir (node : Node) (index : UInt32)
  | mount (device : Option Str)

/-- Whether the caller gets nothing to keep, and the state after the call: a lookup that returns a
node and a successful mount leave pages to their caller. -/
def fsCall (dev : Device) (fuel : ℕ) (st : Volume) : FsCall → Option (Bool × Volume)
  | .read node offset size => some (true, (fat32Read dev st node offset size).2.2)
  | .write node offset size buffer => some (true, (fat32Write dev st node offset size buffer).2.2)
  | .createEntry parent name attr =>
    (fat32CreateEntry dev fuel st parent name attr).map fun out => (true, out.2)
  | .finddir node name => (fat32Finddir dev fuel st node name).map fun out => (out.1.isNone, out.2)
  | .readdir node index =>
    (fat32Readdir dev fuel st node index).map fun out => (out.1.isNone, out.2)
  | .mount device => some ((fat32Mount dev st device).1 = -1, (fat32Mount dev st device).2.2)

/-- The chain of the directory of a node ends. -/
def ChainEnds (st : Volume) (node : Node) : Prop :=
  ∀ dir, node.data = some dir → ∃ k, endOfChain ≤ clusterAt st dir.firstCluster k

/-- The volume of a call is mounted, and the chain of its directory ends. -/
def Ends (st : Volume) : FsCall → Prop
  | .createEntry parent _ _ => Mounted st.fs ∧ ChainEnds st parent
  | .finddir node _ => Mounted st.fs ∧ ChainEnds st node
  | .readdir node _ => Mounted st.fs ∧ ChainEnds st node
  | _ => True

theorem fsCall_returns {c : FsCall} (h : Ends st c) : ∃ fuel, (fsCall dev fuel st c).isSome := by
  have hstops {node : Node} {Stop : NodeData → ℕ → Prop} (hends : ChainEnds st node)
      (hstop : ∀ dir k, endOfChain ≤ clusterAt st dir.firstCluster k → Stop dir k) :
      ∀ dir, node.data = some dir → (pfaAlloc st.pfa).1 ≠ 0 → ∃ k, Stop dir k := by
    intro dir hdir _
    obtain ⟨k, hk⟩ := hends dir hdir
    exact ⟨k, hstop dir k hk⟩
  cases c with
  | read node offset size => exact ⟨0, rfl⟩
  | write node offset size buffer => exact ⟨0, rfl⟩
  | mount device => exact ⟨0, rfl⟩
  | createEntry parent name attr =>
    simp only [fsCall, Option.isSome_map]
    exact (fat32CreateEntry_returns h.1 parent name attr).mpr (hstops h.2 fun _ _ => Or.inl)
  | finddir node name =>
    simp only [fsCall, Option.isSome_map]
    exact (fat32Scan_returns (fun _ lfn _ _ hr => hr.nameMatches name lfn) h.1 node).mpr
      (hstops h.2 fun _ _ => Or.inl)
  | readdir node index =>
    simp only [fsCall, Option.isSome_map]
    exact (fat32Scan_returns (fun _ _ _ _ _ => rfl) h.1 node).mpr (hstops h.2 fun _ _ => Or.inl)

end Rhoudveine.Fat32
