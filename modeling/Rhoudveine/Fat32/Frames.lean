import Rhoudveine.Fat32.Create
import Rhoudveine.Fat32.Mount
import Rhoudveine.Mm.Frames

/-!
# The frames the FAT32 driver takes

Buffers are given back; what a lookup keeps are the two frames of the node it returns.
-/

namespace Rhoudveine.Fat32
open Fs Mm

/-! ## Taking and giving back -/

/-- The allocator has lost the frames in `taken`, and no other. -/
structure Took (s s' : Pfa) (taken : Set UInt64) : Prop where
  wf : WellFormed s'
  free_iff : ∀ p, FreeFrame s' p ↔ FreeFrame s p ∧ p ∉ taken

namespace Took

variable {s t u : Pfa} {A B : Set UInt64} {p : UInt64}

theorem refl (hs : WellFormed s) : Took s s ∅ where
  wf := hs
  free_iff p := by simp

theorem of_eq (hs : WellFormed s) (h : t = s) : Took s t ∅ := by
  subst h
  exact refl hs

theorem trans (h : Took s t A) (h' : Took t u B) : Took s u (A ∪ B) where
  wf := h'.wf
  free_iff p := by
    rw [h'.free_iff, h.free_iff, Set.mem_union, not_or, and_assoc]

theorem alloc (hs : WellFormed s) : Took s (pfaAlloc s).2 {(pfaAlloc s).1} where
  wf := pfaAlloc_wellFormed hs
  free_iff p := by
    rw [freeFrame_pfaAlloc hs, Set.mem_singleton_iff]

/-- What was taken matters only where it was free. -/
theorem congr (h : Took s t A) (hAB : ∀ p, FreeFrame s p → (p ∈ A ↔ p ∈ B)) : Took s t B where
  wf := h.wf
  free_iff p := by
    rw [h.free_iff]
    exact and_congr_right fun hp => not_congr (hAB p hp)

/-- Giving back a frame that was free at the start. -/
theorem free (h : Took s t A) (hs : WellFormed s) (hp : FreeFrame s p) :
    Took s (pfaFree t p) (A \ {p}) where
  wf := pfaFree_wellFormed h.wf (freeFrame_managed hs hp)
  free_iff q := by
    rw [freeFrame_pfaFree h.wf (freeFrame_managed hs hp), h.free_iff, Set.mem_sdiff,
      Set.mem_singleton_iff]
    by_cases hq : q = p
    · subst hq
      simp [hp]
    · simp [hq]

end Took

/-- A page that is handed out is a free frame. -/
theorem pfaAlloc_free {s : Pfa} (hs : WellFormed s) (h : (pfaAlloc s).1 ≠ 0) :
    FreeFrame s (pfaAlloc s).1 := Or.inr ((pfaAlloc_lowest hs).2 h).1

/-- A failing `pfa_alloc` changes nothing. -/
theorem pfaAlloc_zero {s : Pfa} (hs : WellFormed s) (h : (pfaAlloc s).1 = 0) :
    (pfaAlloc s).2 = s := by
  rcases pfaAlloc_cases hs with ⟨i, hi, hclear, -, heq⟩ | ⟨-, heq⟩
  · rw [heq] at h
    exact absurd h (freeHigh_managed (freeHigh_ofIndex hi hclear)).ne_zero
  · rw [heq]

/-- The null pointer is no frame. -/
theorem not_freeFrame_zero {s : Pfa} (hs : WellFormed s) : ¬ FreeFrame s 0 :=
  fun h => (freeFrame_managed hs h).ne_zero rfl

/-! ## Losing frames -/

/-- No frame has become free. -/
structure Shrunk (s s' : Pfa) : Prop where
  wf : WellFormed s'
  free : ∀ p, FreeFrame s' p → FreeFrame s p

/-- The free frames are the same. -/
def SameFree (s s' : Pfa) : Prop := ∀ p, FreeFrame s' p ↔ FreeFrame s p

theorem Shrunk.refl {s : Pfa} (hs : WellFormed s) : Shrunk s s := ⟨hs, fun _ hp => hp⟩

theorem Shrunk.trans {s t u : Pfa} (h : Shrunk s t) (h' : Shrunk t u) : Shrunk s u :=
  ⟨h'.wf, fun p hp => h.free p (h'.free p hp)⟩

theorem SameFree.refl (s : Pfa) : SameFree s s := fun _ => Iff.rfl

/-- What one part of a run has lost the other does not make up for. -/
theorem Shrunk.sameFree_iff {s t u : Pfa} (h : Shrunk s t) (h' : Shrunk t u) :
    SameFree s u ↔ SameFree s t ∧ SameFree t u := by
  constructor
  · intro hsame
    constructor
    · intro p
      exact ⟨h.free p, fun hp => h'.free p ((hsame p).mpr hp)⟩
    · intro p
      exact ⟨h'.free p, fun hp => (hsame p).mpr (h.free p hp)⟩
  · intro hsame p
    exact (hsame.2 p).trans (hsame.1 p)

theorem Took.shrunk {s t : Pfa} {A : Set UInt64} (h : Took s t A) : Shrunk s t :=
  ⟨h.wf, fun p hp => ((h.free_iff p).mp hp).1⟩

theorem Took.sameFree {s t : Pfa} (h : Took s t ∅) : SameFree s t := by
  intro p
  rw [h.free_iff]
  exact and_iff_left (Set.notMem_empty p)

/-! ## Operations that allocate nothing -/

variable {dev : Device} {st : Volume}

@[simp] theorem touch_pfa (page : UInt64) (start len : ℕ) : (st.touch page start len).pfa = st.pfa :=
  rfl

@[simp] theorem ahciReadSectors_pfa (lba count : UInt32) (page : UInt64) (buf : ℕ → UInt8) :
    (ahciReadSectors dev st lba count page buf).2.2.pfa = st.pfa := rfl

@[simp] theorem ahciWriteSectors_pfa (lba count : UInt32) (page : UInt64) (buf : ℕ → UInt8) :
    (ahciWriteSectors dev st lba count page buf).2.pfa = st.pfa := rfl

@[simp] theorem fat32GetFatEntry_pfa (cluster : UInt32) :
    (fat32GetFatEntry st cluster).2.pfa = st.pfa := by
  unfold fat32GetFatEntry
  split <;> rfl

@[simp] theorem fat32SetFatEntry_pfa (cluster value : UInt32) :
    (fat32SetFatEntry st cluster value).pfa = st.pfa := by
  unfold fat32SetFatEntry
  split <;> rfl

@[simp] theorem writeFat_pfa : (writeFat dev st).2.pfa = st.pfa := rfl

@[simp] theorem allocLoop_pfa (rounds : ℕ) (i : UInt32) :
    (allocLoop dev rounds i st).2.pfa = st.pfa := by
  induction rounds generalizing i st with
  | zero => rfl
  | succ rounds ih =>
    have hget : (fat32GetFatEntry st i).2.pfa = st.pfa := fat32GetFatEntry_pfa i
    simp only [allocLoop]
    by_cases hfree : (fat32GetFatEntry st i).1 = 0
    · rw [if_pos hfree]
      split
      · simp
      · simp
    · rw [if_neg hfree, ih, hget]

@[simp] theorem fat32AllocCluster_pfa : (fat32AllocCluster dev st).2.pfa = st.pfa := by
  unfold fat32AllocCluster
  split
  · rfl
  · exact allocLoop_pfa _ _

@[simp] theorem fat32ExtendChain_pfa (lastCluster : UInt32) :
    (fat32ExtendChain dev st lastCluster).2.pfa = st.pfa := by
  simp only [fat32ExtendChain]
  split <;> simp

@[simp] theorem fat32ReadCluster_pfa (cluster : UInt32) (page : UInt64) (buf : ℕ → UInt8) :
    (fat32ReadCluster dev st cluster page buf).2.2.pfa = st.pfa := rfl

@[simp] theorem fat32WriteCluster_pfa (cluster : UInt32) (page : UInt64) (buf : ℕ → UInt8) :
    (fat32WriteCluster dev st cluster page buf).2.pfa = st.pfa := rfl

@[simp] theorem writeRecords_pfa (page : UInt64) (rs : List Record) (i : ℕ) (buf : ℕ → UInt8) :
    (writeRecords page rs i buf st).2.pfa = st.pfa := by
  induction rs generalizing i buf st with
  | nil => rfl
  | cons r rs ih => rw [writeRecords, ih, touch_pfa]

theorem scanChain_pfa {accept : UInt32 → Lfn → Record → Bool} {page : UInt64} {fuel : ℕ}
    {cluster : UInt32} {buf : ℕ → UInt8} {seen : UInt32} {lfn : Lfn}
    {found : Option (Record × Lfn)} {st' : Volume}
    (h : scanChain dev accept page fuel cluster buf seen lfn st = some (found, st')) :
    st'.pfa = st.pfa := by
  induction fuel generalizing cluster buf seen lfn st with
  | zero => cases h
  | succ fuel ih =>
    have hread := @fat32ReadCluster_pfa dev st cluster page buf
    unfold scanChain at h
    split at h
    · cases h
      rfl
    · generalize fat32ReadCluster dev st cluster page buf = out at h hread
      obtain ⟨ok, buf, t⟩ := out
      cases ok with
      | false =>
        cases h
        exact hread
      | true =>
        dsimp only at h hread
        split at h
        · cases h
          exact hread
        · cases h
          exact hread
        · rw [ih h, fat32GetFatEntry_pfa, hread]

theorem findTarget_pfa {page : UInt64} {needed fuel : ℕ} {cluster : UInt32} {buf : ℕ → UInt8}
    {found : Option (UInt32 × ℕ × (ℕ → UInt8))} {st' : Volume}
    (h : findTarget dev page needed fuel cluster buf st = some (found, st')) :
    st'.pfa = st.pfa := by
  induction fuel generalizing cluster buf st with
  | zero => cases h
  | succ fuel ih =>
    have hread := @fat32ReadCluster_pfa dev st cluster page buf
    unfold findTarget at h
    split at h
    · cases h
      rfl
    · generalize fat32ReadCluster dev st cluster page buf = out at h hread
      obtain ⟨ok, buf, t⟩ := out
      cases ok with
      | false =>
        cases h
        exact hread
      | true =>
        dsimp only at h hread
        split at h
        · cases h
          exact hread
        · have hget := @fat32GetFatEntry_pfa t cluster
          generalize fat32GetFatEntry t cluster = out at h hget
          obtain ⟨next, u⟩ := out
          dsimp only at h hget
          split at h
          · have hextend := @fat32ExtendChain_pfa dev u cluster
            generalize fat32ExtendChain dev u cluster = out at h hextend
            obtain ⟨new, v⟩ := out
            dsimp only at h hextend
            split at h
            · cases h
              rw [hextend, hget, hread]
            · cases h
              rw [fat32WriteCluster_pfa, touch_pfa, hextend, hget, hread]
          · rw [ih h, hget, hread]

/-! ## Looking up -/

/-- What a lookup takes: nothing when it finds nothing, else the frames of the node. -/
def nodeFrames : Option Node → Set UInt64
  | none => ∅
  | some node => {node.page, node.dataPage}

/-- The allocator before and after a lookup. -/
structure Looked (s s' : Pfa) (found : Option Node) : Prop where
  took : Took s s' (nodeFrames found)
  page : ∀ node, found = some node → FreeFrame s node.page
  dataPage : ∀ node, found = some node → node.dataPage = 0 ∨ FreeFrame s node.dataPage

theorem looked_none {s s' : Pfa} (h : Took s s' ∅) : Looked s s' none := by
  constructor
  · exact h
  · intro node hnode
    cases hnode
  · intro node hnode
    cases hnode

/-- The two allocations for a node. -/
theorem makeNode_looked (hs : WellFormed st.pfa) (dir : NodeData) (r : Record) (lfn : Lfn) :
    Looked st.pfa (makeNode st dir r lfn).2.pfa (makeNode st dir r lfn).1 := by
  have hfirst := Took.alloc hs
  have hboth := hfirst.trans (Took.alloc hfirst.wf)
  unfold makeNode
  dsimp only [Volume.alloc]
  split
  · rename_i hpage
    apply looked_none
    apply Took.of_eq hs
    rw [pfaAlloc_zero hs hpage, pfaAlloc_zero hs hpage]
  · rename_i hpage
    constructor
    · exact hboth.congr fun p _ => Iff.rfl
    · intro node hnode
      obtain rfl := Option.some.inj hnode
      exact pfaAlloc_free hs hpage
    · intro node hnode
      obtain rfl := Option.some.inj hnode
      by_cases hdata : (pfaAlloc (pfaAlloc st.pfa).2).1 = 0
      · exact Or.inl hdata
      · exact Or.inr ((hfirst.free_iff _).mp (pfaAlloc_free hfirst.wf hdata)).1

/-- A buffer that is given back at the end of an operation. -/
theorem Looked.buffer {s t u : Pfa} {found : Option Node} {page : UInt64} (hs : WellFormed s)
    (hpage : FreeFrame s page) (htook : Took s t {page}) (h : Looked t u found) :
    Looked s (pfaFree u page) found := by
  have hfree (p : UInt64) (hp : FreeFrame t p) : FreeFrame s p ∧ p ≠ page := by
    rw [htook.free_iff, Set.mem_singleton_iff] at hp
    exact hp
  have hall := (htook.trans h.took).free hs hpage
  cases found with
  | none =>
    apply looked_none
    apply hall.congr
    intro p _
    simp [nodeFrames]
  | some node =>
    have hnode := hfree _ (h.page node rfl)
    have hdata : node.dataPage ≠ page := by
      rcases h.dataPage node rfl with hzero | hp
      · rw [hzero]
        rintro rfl
        exact not_freeFrame_zero hs hpage
      · exact (hfree _ hp).2
    constructor
    · apply hall.congr
      intro p _
      simp only [nodeFrames, Set.mem_sdiff, Set.mem_union, Set.mem_singleton_iff, Set.mem_insert_iff]
      constructor
      · exact fun hp => hp.1.resolve_left hp.2
      · intro hp
        refine ⟨Or.inr hp, ?_⟩
        rintro rfl
        rcases hp with hp | hp
        · exact hnode.2 hp.symm
        · exact hdata hp.symm
    · intro node' heq
      obtain rfl := Option.some.inj heq
      exact hnode.1
    · intro node' heq
      obtain rfl := Option.some.inj heq
      exact (h.dataPage _ rfl).imp_right fun hp => (hfree _ hp).1

theorem fat32Scan_looked {accept : UInt32 → Lfn → Record → Bool} {fuel : ℕ} {node : Node}
    {found : Option Node} {st' : Volume} (hs : WellFormed st.pfa)
    (h : fat32Scan dev accept fuel st node = some (found, st')) : Looked st.pfa st'.pfa found := by
  unfold fat32Scan at h
  split at h
  · cases h
    exact looked_none (Took.refl hs)
  · dsimp only [Volume.alloc] at h
    split at h
    · rename_i hpage
      cases h
      exact looked_none (Took.of_eq hs (pfaAlloc_zero hs hpage))
    · rename_i hpage
      have hfree := pfaAlloc_free hs hpage
      have htook := Took.alloc hs
      split at h
      · cases h
      · rename_i t hscan
        cases h
        have hkept := scanChain_pfa hscan
        exact (looked_none (Took.of_eq htook.wf hkept)).buffer hs hfree htook
      · rename_i dir _ _ r lfn t hscan
        cases h
        have hkept : t.pfa = (pfaAlloc st.pfa).2 := scanChain_pfa hscan
        have hnode := @makeNode_looked t (hkept ▸ htook.wf) dir r lfn
        rw [hkept] at hnode
        exact hnode.buffer hs hfree htook

/-- A lookup loses frames exactly when it finds something. -/
theorem Looked.sameFree_iff {s s' : Pfa} {found : Option Node} (h : Looked s s' found) :
    SameFree s s' ↔ found = none := by
  cases found with
  | none => exact iff_of_true h.took.sameFree rfl
  | some node =>
    apply iff_of_false
    · intro hsame
      have hpage := (hsame node.page).mpr (h.page node rfl)
      rw [h.took.free_iff] at hpage
      exact hpage.2 (Set.mem_insert _ _)
    · intro hnone
      cases hnone

/-- The two frames of a node are given back. -/
theorem Looked.freeNode {s : Pfa} {node : Node} {t : Volume} (hs : WellFormed s)
    (h : Looked s t.pfa (some node)) : Took s (freeNode t node).pfa ∅ := by
  have hpage := h.page node rfl
  rcases h.dataPage node rfl with hzero | hdata
  · have hfree := h.took.free hs hpage
    have hkeep : (Fat32.freeNode t node).pfa = pfaFree t.pfa node.page := by
      simp only [Fat32.freeNode, hzero, ne_eq, not_true_eq_false, if_false]
      rfl
    rw [hkeep]
    apply hfree.congr
    intro p hp
    have hne : p ≠ 0 := (freeFrame_managed hs hp).ne_zero
    simp only [nodeFrames, hzero, Set.mem_sdiff, Set.mem_insert_iff, Set.mem_singleton_iff,
      Set.mem_empty_iff_false]
    tauto
  · have hfree := (h.took.free hs hdata).free hs hpage
    have hne : node.dataPage ≠ 0 := (freeFrame_managed hs hdata).ne_zero
    have hkeep : (Fat32.freeNode t node).pfa =
        pfaFree (pfaFree t.pfa node.dataPage) node.page := by
      simp only [Fat32.freeNode, if_pos hne]
      rfl
    rw [hkeep]
    apply hfree.congr
    intro p _
    simp only [nodeFrames, Set.mem_sdiff, Set.mem_insert_iff, Set.mem_singleton_iff,
      Set.mem_empty_iff_false]
    tauto

/-! ## Creating -/

/-- A buffer around operations that keep nothing; `pfa_free` ignores a null pointer. -/
theorem Took.buffer {s t : Pfa} (hs : WellFormed s) (h : Took (pfaAlloc s).2 t ∅) :
    Took s (pfaFree t (pfaAlloc s).1) ∅ := by
  by_cases hpage : (pfaAlloc s).1 = 0
  · rw [hpage]
    rw [pfaAlloc_zero hs hpage] at h
    exact h
  · have hfree := ((Took.alloc hs).trans h).free hs (pfaAlloc_free hs hpage)
    apply hfree.congr
    intro p _
    simp

theorem makeDirectory_took (hs : WellFormed st.pfa) (dir : NodeData) :
    Took st.pfa (makeDirectory dev st dir).2.pfa ∅ := by
  have hcluster := @fat32AllocCluster_pfa dev st
  unfold makeDirectory
  generalize fat32AllocCluster dev st = out at hcluster
  obtain ⟨first, t⟩ := out
  dsimp only at hcluster ⊢
  split
  · exact Took.of_eq hs hcluster
  · rw [← hcluster] at hs ⊢
    apply Took.buffer hs
    exact Took.refl (pfaAlloc_wellFormed hs)

theorem fillEntry_took {s : Pfa} (hs : WellFormed s) (hst : st.pfa = (pfaAlloc s).2) (dir : NodeData)
    (name : Str) (attr : UInt8) (target : UInt32) (start : ℕ) (buf : ℕ → UInt8) :
    Took s (fillEntry dev st dir name attr (pfaAlloc s).1 target start buf).2.pfa ∅ := by
  have hwf : WellFormed st.pfa := by
    rw [hst]
    exact pfaAlloc_wellFormed hs
  have hdir : Took st.pfa (if attr &&& attrDirectory ≠ 0 then makeDirectory dev st dir
      else (0, st)).2.pfa ∅ := by
    split
    · exact makeDirectory_took hwf dir
    · exact Took.refl hwf
  rw [hst] at hdir
  unfold fillEntry
  generalize (if attr &&& attrDirectory ≠ 0 then makeDirectory dev st dir else (0, st)) = out at *
  obtain ⟨first, t⟩ := out
  dsimp only at hdir ⊢
  split
  · exact Took.buffer hs hdir
  · have hread := @fat32ReadCluster_pfa dev t target (pfaAlloc s).1 buf
    generalize fat32ReadCluster dev t target (pfaAlloc s).1 buf = out at *
    obtain ⟨ok, buf, u⟩ := out
    have hrecords := @writeRecords_pfa u (pfaAlloc s).1 (entryRecords name attr first) start buf
    generalize writeRecords (pfaAlloc s).1 (entryRecords name attr first) start buf u = out at *
    obtain ⟨buf, v⟩ := out
    dsimp only at hread hrecords ⊢
    rw [← hread, ← hrecords] at hdir
    exact Took.buffer hs hdir

theorem fat32CreateEntry_took {fuel : ℕ} {parent : Node} {name : Str} {attr : UInt8} {r : ℤ}
    {st' : Volume} (hs : WellFormed st.pfa)
    (h : fat32CreateEntry dev fuel st parent name attr = some (r, st')) :
    Took st.pfa st'.pfa ∅ := by
  unfold fat32CreateEntry at h
  split at h
  · cases h
    exact Took.refl hs
  · rename_i dir hdata
    dsimp only [Volume.alloc] at h
    split at h
    · rename_i hpage
      cases h
      exact Took.of_eq hs (pfaAlloc_zero hs hpage)
    · split at h
      · cases h
      · rename_i t htarget
        cases h
        apply Took.buffer hs
        exact Took.of_eq (pfaAlloc_wellFormed hs) (findTarget_pfa htarget)
      · rename_i target start buf t htarget
        have hfill := @fillEntry_took dev t st.pfa hs (findTarget_pfa htarget) dir name attr target
          start buf
        rw [Option.some.inj h] at hfill
        exact hfill

/-- Creating an entry takes no frame, whatever it returns. -/
theorem fat32Create_took {fuel : ℕ} {parent : Node} {name : Str} {flags : UInt32} {r : ℤ}
    {st' : Volume} (hs : WellFormed st.pfa)
    (h : fat32Create dev fuel st parent name flags = some (r, st')) : Took st.pfa st'.pfa ∅ := by
  unfold fat32Create at h
  split at h
  · cases h
    exact Took.refl hs
  · split at h
    · cases h
    · rename_i existing t hfind
      cases h
      exact (fat32Scan_looked hs hfind).freeNode hs
    · rename_i t hfind
      have hlook := (fat32Scan_looked hs hfind).took
      have hall := hlook.trans (fat32CreateEntry_took hlook.wf h)
      apply hall.congr
      intro p _
      simp [nodeFrames]

/-! ## Mounting -/

theorem pfaAlloc_managed {s : Pfa} (hs : WellFormed s) (h : (pfaAlloc s).1 ≠ 0) :
    Managed (pfaAlloc s).1 := freeFrame_managed hs (pfaAlloc_free hs h)

theorem mountRoot_wellFormed {fsPage : UInt64} (hs : WellFormed st.pfa)
    (hcache : Managed st.fs.fatCachePage) (hfs : Managed fsPage) :
    WellFormed (mountRoot st fsPage).2.2.pfa := by
  have hpage := pfaAlloc_wellFormed hs
  unfold mountRoot
  dsimp only [Volume.alloc]
  split
  · exact pfaFree_wellFormed (pfaFree_wellFormed hpage hcache) hfs
  · rename_i hne
    split
    · apply pfaFree_wellFormed _ hfs
      apply pfaFree_wellFormed _ hcache
      exact pfaFree_wellFormed (pfaAlloc_wellFormed hpage) (pfaAlloc_managed hs hne)
    · exact pfaAlloc_wellFormed hpage

theorem mountVolume_wellFormed {device : Option Str} {fsPage : UInt64} {bs : BootSector}
    (hs : WellFormed st.pfa) (hfs : Managed fsPage) :
    WellFormed (mountVolume dev st device fsPage bs).2.2.pfa := by
  have hpage := pfaAlloc_wellFormed hs
  unfold mountVolume
  dsimp only [Volume.alloc]
  split
  · exact pfaFree_wellFormed hs hfs
  · split
    · exact pfaFree_wellFormed hs hfs
    · split
      · exact pfaFree_wellFormed hpage hfs
      · rename_i hne
        have hcache := pfaAlloc_managed hs hne
        split
        · rename_i hread
          cases congrArg (fun out => out.2.2) hread
          exact pfaFree_wellFormed (pfaFree_wellFormed hpage hcache) hfs
        · rename_i hread
          cases congrArg (fun out => out.2.2) hread
          exact mountRoot_wellFormed hpage hcache hfs

/-- Mounting keeps the allocator in order. -/
theorem fat32Mount_wellFormed (device : Option Str) (hs : WellFormed st.pfa) :
    WellFormed (fat32Mount dev st device).2.2.pfa := by
  have hpage := pfaAlloc_wellFormed hs
  unfold fat32Mount
  dsimp only [Volume.alloc]
  split
  · exact hpage
  · rename_i hne
    have hfs := pfaAlloc_managed hs hne
    split
    · exact pfaFree_wellFormed (pfaAlloc_wellFormed hpage) hfs
    · rename_i hne
      have hboot := pfaAlloc_managed hpage hne
      have hboth := pfaFree_wellFormed (pfaAlloc_wellFormed hpage) hboot
      split
      · rename_i hread
        cases congrArg (fun out => out.2.2) hread
        exact pfaFree_wellFormed hboth hfs
      · rename_i hread
        cases congrArg (fun out => out.2.2) hread
        exact mountVolume_wellFormed hboth hfs

end Rhoudveine.Fat32
