import Rhoudveine.Elf.Contents

/-!
# Frames taken by `exec`

A load takes frames and gives none back, whether it fails or succeeds.
-/

namespace Rhoudveine.Elf
open Mm Words

/-! ## The allocator during a load -/

/-- Frames have been taken, and none given back. -/
structure Shrinks (s s' : Pfa) : Prop where
  wf : WellFormed s'
  count : s'.lowFreeCount.toNat ≤ s.lowFreeCount.toNat
  free : ∀ q, FreeFrame s' q → FreeFrame s q

theorem Shrinks.refl {s : Pfa} (h : WellFormed s) : Shrinks s s := ⟨h, le_rfl, fun _ hq => hq⟩

theorem Shrinks.trans {s s' s'' : Pfa} (h : Shrinks s s') (h' : Shrinks s' s'') : Shrinks s s'' :=
  ⟨h'.wf, h'.count.trans h.count, fun q hq => h.free q (h'.free q hq)⟩

theorem shrinks_alloc {s : Pfa} (h : WellFormed s) : Shrinks s (pfaAllocLow s).2 where
  wf := pfaAllocLow_wellFormed h
  count := by
    rcases pfaAllocLow_count h with ⟨-, hcount⟩ | ⟨hz, -⟩
    · omega
    · rw [pfaAllocLow_of_zero h hz]
  free q hq := ((freeFrame_pfaAllocLow h q).mp hq).1

theorem shrinks_descend {vm : Vm} (h : WellFormed vm.pfa) (flags k : UInt64) (i : Fin 512) :
    Shrinks vm.pfa (descend vm flags k i).2.pfa := by
  rcases descend_cases vm flags k i with ⟨-, heq⟩ | ⟨-, -, heq⟩ | ⟨-, -, heq⟩
  · rw [heq]
    exact Shrinks.refl h
  · rw [heq]
    exact shrinks_alloc h
  · rw [heq]
    dsimp only
    rw [Vm.setEntry_pfa, Vm.clearFrame_pfa]
    exact shrinks_alloc h

theorem shrinks_mapPage (vm : Vm) (h : WellFormed vm.pfa) (physAddr virtAddr flags : UInt64) :
    Shrinks vm.pfa (mapPage vm physAddr virtAddr flags).2.pfa := by
  have h₁ := shrinks_descend h flags vm.root (tableIndex virtAddr 39)
  unfold mapPage
  generalize descend vm flags vm.root (tableIndex virtAddr 39) = d at h₁ ⊢
  obtain ⟨_ | pdpt, vm₁⟩ := d
  · exact h₁
  have h₂ := h₁.trans (shrinks_descend h₁.wf flags pdpt (tableIndex virtAddr 30))
  dsimp only at h₂ ⊢
  generalize descend vm₁ flags pdpt (tableIndex virtAddr 30) = d at h₂ ⊢
  obtain ⟨_ | pdt, vm₂⟩ := d
  · exact h₂
  have h₃ := h₂.trans (shrinks_descend h₂.wf flags pdt (tableIndex virtAddr 21))
  dsimp only at h₃ ⊢
  generalize descend vm₂ flags pdt (tableIndex virtAddr 21) = d at h₃ ⊢
  obtain ⟨_ | pt, vm₃⟩ := d
  · exact h₃
  · exact h₃

/-- A page loop that finishes has taken a frame for each page. -/
theorem mapLoop_shrinks {vm : Vm} (h : WellFormed vm.pfa) (flags : UInt64) (pages : List UInt64) :
    Shrinks vm.pfa (mapLoop vm flags pages).2.2.pfa ∧
      ((mapLoop vm flags pages).1 = true →
        (mapLoop vm flags pages).2.2.pfa.lowFreeCount.toNat + pages.length ≤
          vm.pfa.lowFreeCount.toNat) := by
  induction pages generalizing vm with
  | nil => exact ⟨Shrinks.refl h, fun _ => le_rfl⟩
  | cons v pages ih =>
    have halloc := shrinks_alloc h
    rw [mapLoop]
    dsimp only
    by_cases hz : (pfaAllocLow vm.pfa).1 = 0
    · rw [if_pos hz]
      exact ⟨halloc, fun hfalse => by cases hfalse⟩
    · rw [if_neg hz]
      have hmap := shrinks_mapPage { vm with pfa := (pfaAllocLow vm.pfa).2 } halloc.wf
        (pfaAllocLow vm.pfa).1 v flags
      generalize mapPage _ _ _ _ = mapped at hmap ⊢
      obtain ⟨hrest, hcount⟩ := ih hmap.wf
      refine ⟨halloc.trans (hmap.trans hrest), fun hdone => ?_⟩
      have := hcount hdone
      have := hmap.count
      rcases pfaAllocLow_count h with ⟨-, hone⟩ | ⟨hz', -⟩
      · rw [List.length_cons]
        dsimp only at *
        omega
      · exact absurd hz' hz

/-- The first page takes the lowest free frame. -/
theorem mapLoop_takes {vm : Vm} (h : WellFormed vm.pfa) (flags v : UInt64) (pages : List UInt64)
    (hz : (pfaAllocLow vm.pfa).1 ≠ 0) :
    ¬ FreeFrame (mapLoop vm flags (v :: pages)).2.2.pfa (pfaAllocLow vm.pfa).1 := by
  intro hfree
  rw [mapLoop] at hfree
  dsimp only at hfree
  rw [if_neg hz] at hfree
  have halloc := shrinks_alloc h
  have hmap := shrinks_mapPage { vm with pfa := (pfaAllocLow vm.pfa).2 } halloc.wf
    (pfaAllocLow vm.pfa).1 v flags
  have hrest := (mapLoop_shrinks hmap.wf flags pages).1
  have hbefore := hmap.free _ (hrest.free _ hfree)
  exact ((freeFrame_pfaAllocLow h _).mp hbefore).2 rfl

@[simp] theorem storeVirt_pfa (vm : Vm) (v : UInt64) (b : UInt8) :
    (storeVirt vm v b).pfa = vm.pfa := by
  unfold storeVirt
  split
  · rfl
  · rfl

@[simp] theorem elfMemcpy_pfa (vm : Vm) (dst : UInt64) (image : Memory) (src : UInt64) (n : ℕ) :
    (elfMemcpy vm dst image src n).pfa = vm.pfa := by
  induction n generalizing vm dst src with
  | zero => rfl
  | succ n ih => rw [elfMemcpy, ih, storeVirt_pfa]

@[simp] theorem copySegment_pfa (vm : Vm) (image : Memory) (ph : Phdr) :
    (copySegment vm image ph).2.pfa = vm.pfa := by
  unfold copySegment
  dsimp only
  split
  · dsimp only
    rw [elfMemset_eq _ _ 0, elfMemcpy_pfa, elfMemcpy_pfa]
  · exact elfMemcpy_pfa ..

theorem loadSegment_shrinks {vm : Vm} (h : WellFormed vm.pfa) (image : Memory) (size : UInt32)
    (off : UInt64) : Shrinks vm.pfa (loadSegment vm image size off).2.2.pfa := by
  unfold loadSegment
  dsimp only
  split
  · exact Shrinks.refl h
  · split
    · exact Shrinks.refl h
    · have hloop := (mapLoop_shrinks h (phdrAt image off).segFlags (phdrAt image off).pages).1
      split
      · dsimp only
        rw [copySegment_pfa]
        exact hloop
      · exact hloop

theorem loadSegments_shrinks {vm : Vm} (h : WellFormed vm.pfa) (image : Memory) (size : UInt32)
    (offs : List UInt64) : Shrinks vm.pfa (loadSegments vm image size offs).2.2.pfa := by
  induction offs generalizing vm with
  | nil => exact Shrinks.refl h
  | cons off offs ih =>
    have hfirst := loadSegment_shrinks h image size off
    rw [loadSegments]
    dsimp only
    split
    · exact hfirst
    · exact hfirst.trans (ih hfirst.wf)

/-- A load that reaches the jump has taken the frames of the init stack. -/
theorem load_shrinks {vm : Vm} (h : WellFormed vm.pfa) (image : Memory) (size : UInt32) :
    Shrinks vm.pfa (elf64LoadAndRun vm image size).2.2.pfa ∧
      ∀ entry rsp, (elf64LoadAndRun vm image size).1 = .jump entry rsp →
        (elf64LoadAndRun vm image size).2.2.pfa.lowFreeCount.toNat + initStackPages ≤
          vm.pfa.lowFreeCount.toNat := by
  have hsegments := loadSegments_shrinks h image size (phdrOffsets image)
  rw [elf64LoadAndRun]
  split
  · exact ⟨Shrinks.refl h, fun _ _ hj => by cases hj⟩
  split
  · exact ⟨Shrinks.refl h, fun _ _ hj => by cases hj⟩
  split
  · exact ⟨Shrinks.refl h, fun _ _ hj => by cases hj⟩
  dsimp only
  split
  · exact ⟨hsegments, fun _ _ hj => by cases hj⟩
  · obtain ⟨hstack, hcount⟩ := mapLoop_shrinks hsegments.wf stackFlags stackPages
    split
    · rename_i hdone
      refine ⟨hsegments.trans hstack, fun _ _ _ => ?_⟩
      have hlength : stackPages.length = initStackPages := rfl
      have := hcount hdone
      have := hsegments.count
      dsimp only
      omega
    · exact ⟨hsegments.trans hstack, fun _ _ hj => by cases hj⟩

/-! ## Runs of `exec` -/

/-- A successful `exec` of a program, and the state in which the program starts. -/
structure Exec (ι : Type*) where
  program : ι
  file : ExecFile
  started : Vm

/-- Successful calls of `sys_exec` after one another.  Each program changes memory as it likes
before it calls `exec`. -/
def ExecRun {ι : Type*} : Vm → List (Exec ι) → Prop
  | _, [] => True
  | vm, e :: es =>
    (∃ mem entry rsp, sysExec { vm with mem := mem } e.file = (.jump entry rsp, e.started)) ∧
      ExecRun e.started es

/-- An `exec` takes the frames of a stack. -/
theorem sysExec_count (vm : Vm) (h : WellFormed vm.pfa) {file : ExecFile} {entry rsp : UInt64}
    {vm' : Vm} (hexec : sysExec vm file = (.jump entry rsp, vm')) :
    WellFormed vm'.pfa ∧
      vm'.pfa.lowFreeCount.toNat + initStackPages ≤ vm.pfa.lowFreeCount.toNat := by
  cases file with
  | notFound => cases hexec
  | opened bytesRead execBuf =>
    rw [sysExec] at hexec
    split at hexec
    · cases hexec
    · obtain ⟨hjump, hvm'⟩ := Prod.mk.inj hexec
      obtain ⟨hshrinks, hcount⟩ := load_shrinks h execBuf (UInt32.ofInt bytesRead)
      rw [← hvm']
      exact ⟨hshrinks.wf, hcount _ _ hjump⟩

/-- Each program of a run starts with fewer free frames than all before it. -/
theorem execRun_counts {ι : Type*} {vm : Vm} (h : WellFormed vm.pfa) {es : List (Exec ι)}
    (hrun : ExecRun vm es) :
    (∀ e ∈ es, e.started.pfa.lowFreeCount.toNat < vm.pfa.lowFreeCount.toNat) ∧
      es.Pairwise fun e e' =>
        e'.started.pfa.lowFreeCount.toNat < e.started.pfa.lowFreeCount.toNat := by
  induction es generalizing vm with
  | nil => exact ⟨by simp, List.Pairwise.nil⟩
  | cons e es ih =>
    obtain ⟨⟨mem, entry, rsp, hexec⟩, hrest⟩ := hrun
    obtain ⟨hwf, hcount⟩ := sysExec_count { vm with mem := mem } h hexec
    have hstep : e.started.pfa.lowFreeCount.toNat < vm.pfa.lowFreeCount.toNat := by
      have hpages : initStackPages = 4 := rfl
      dsimp only at hcount
      omega
    obtain ⟨hall, hpairs⟩ := ih hwf hrest
    refine ⟨List.forall_mem_cons.mpr ⟨hstep, fun e' he' => (hall e' he').trans hstep⟩, ?_⟩
    exact List.Pairwise.cons hall hpairs

/-- The number of free low frames follows from the program that was loaded last exactly in the
runs that load no program twice. -/
theorem count_of_program_iff {ι : Type*} {vm : Vm} (h : WellFormed vm.pfa) {es : List (Exec ι)}
    (hrun : ExecRun vm es) :
    (∃ count : ι → ℕ, ∀ e ∈ es, e.started.pfa.lowFreeCount.toNat = count e.program) ↔
      (es.map Exec.program).Nodup := by
  obtain ⟨-, hpairs⟩ := execRun_counts h hrun
  constructor
  · intro ⟨count, hcount⟩
    rw [List.Nodup, List.pairwise_map]
    apply hpairs.imp_of_mem
    intro e e' he he' hlt heq
    rw [hcount e he, hcount e' he', heq] at hlt
    exact lt_irrefl _ hlt
  · intro hnodup
    have hinj : ∀ e ∈ es, ∀ e' ∈ es, e.program = e'.program → e = e' :=
      fun e he e' he' => List.inj_on_of_nodup_map hnodup he he'
    classical
    refine ⟨fun i => if hi : ∃ e ∈ es, e.program = i then
      (Classical.choose hi).started.pfa.lowFreeCount.toNat else 0, fun e he => ?_⟩
    have hi : ∃ e' ∈ es, e'.program = e.program := ⟨e, he, rfl⟩
    obtain ⟨hmem, hprogram⟩ := Classical.choose_spec hi
    dsimp only
    rw [dif_pos hi, hinj _ hmem e he hprogram]

theorem header_valid : ValidImage (Memory.ofBytes (headerBytes 0)) 64 := by
  have hoffs : phdrOffsets (Memory.ofBytes (headerBytes 0)) = [] := by decide +kernel
  refine ⟨by decide, rfl, rfl, ?_, ?_⟩
  · rw [hoffs]
    intro ph hph
    cases hph
  · rw [hoffs]
    exact List.Pairwise.nil

/-- The file without segments is started with sixteen free frames or more. -/
theorem header_exec {vm : Vm} (hok : vm.TreeOk) (hno : ∀ v, UserHalf v → vm.NoLarge (indices v))
    (hfree : 16 ≤ vm.pfa.lowFreeCount.toNat) :
    ∃ vm', sysExec vm (.opened 64 (Memory.ofBytes (headerBytes 0))) =
        (.jump 0x400000 initStackTop, vm') ∧
      vm'.TreeOk ∧ (∀ v, UserHalf v → vm'.NoLarge (indices v)) ∧
      vm.pfa.lowFreeCount.toNat ≤ vm'.pfa.lowFreeCount.toNat + 16 := by
  have hpages : (programPages (Memory.ofBytes (headerBytes 0))).length = 4 := by decide +kernel
  have hentry : eEntry (Memory.ofBytes (headerBytes 0)) = 0x400000 := by decide +kernel
  have hloads : vm.budget.Loads (programPages (Memory.ofBytes (headerBytes 0))) := by
    apply Budget.loads_of_le
    rw [hpages, budget_free]
    exact hfree
  obtain ⟨hjump, hbudget, F, hspace, -⟩ := load_spec hok hno header_valid hloads
  have hcount := vm.budget.load_free (programPages (Memory.ofBytes (headerBytes 0)))
  rw [← hbudget, hpages, budget_free, budget_free] at hcount
  rw [hentry] at hjump
  refine ⟨_, ?_, hspace.ok, fun v hv => hspace.noLarge _ (length_indices v) (hno v hv), hcount⟩
  rw [sysExec, if_neg (by decide)]
  exact Prod.ext hjump rfl

/-- A run of one `exec`. -/
theorem count_of_program_iff_once :
    ∃ m vm', mmInit 0 (some [⟨0x100000, 0x100000, 0⟩]) = some m ∧
      sysExec (bootVm 0x1000 m.pfa) (.opened 64 (Memory.ofBytes (headerBytes 0))) =
        (.jump 0x400000 initStackTop, vm') ∧
      ∃ count : Unit → ℕ, ∀ e ∈ [(⟨(), .opened 64 (Memory.ofBytes (headerBytes 0)), vm'⟩ : Exec Unit)],
        e.started.pfa.lowFreeCount.toNat = count e.program := by
  obtain ⟨m, hm⟩ := mmInit_isSome 0
    (show bitmapPlacementAddr [⟨0x100000, 0x100000, 0⟩] ≠ 0 by decide)
  obtain ⟨hok, -, hno⟩ := bootVm_ok hm
  have hcount : 224 ≤ (bootVm 0x1000 m.pfa).pfa.lowFreeCount.toNat := boot_count hm
  obtain ⟨vm', hexec, -⟩ := header_exec hok (fun v _ => hno (indices v)) (by omega)
  refine ⟨m, vm', hm, hexec, (count_of_program_iff hok.wf ?_).mpr ?_⟩
  · exact ⟨⟨_, _, _, hexec⟩, trivial⟩
  · exact List.nodup_singleton _

/-- The same program started twice. -/
theorem exec_twice :
    ∃ m vm₁ vm₂, mmInit 0 (some [⟨0x100000, 0x100000, 0⟩]) = some m ∧
      sysExec (bootVm 0x1000 m.pfa) (.opened 64 (Memory.ofBytes (headerBytes 0))) =
        (.jump 0x400000 initStackTop, vm₁) ∧
      sysExec vm₁ (.opened 64 (Memory.ofBytes (headerBytes 0))) = (.jump 0x400000 initStackTop, vm₂) ∧
      vm₂.pfa.lowFreeCount.toNat < vm₁.pfa.lowFreeCount.toNat := by
  obtain ⟨m, hm⟩ := mmInit_isSome 0
    (show bitmapPlacementAddr [⟨0x100000, 0x100000, 0⟩] ≠ 0 by decide)
  obtain ⟨hok, -, hno⟩ := bootVm_ok hm
  have hcount : 224 ≤ (bootVm 0x1000 m.pfa).pfa.lowFreeCount.toNat := boot_count hm
  obtain ⟨vm₁, hexec₁, hok₁, hno₁, hcount₁⟩ :=
    header_exec hok (fun v _ => hno (indices v)) (by omega)
  obtain ⟨vm₂, hexec₂, -⟩ := header_exec hok₁ hno₁ (by omega)
  have hlt := (sysExec_count vm₁ hok₁.wf hexec₂).2
  have hpages : initStackPages = 4 := rfl
  exact ⟨m, vm₁, vm₂, hm, hexec₁, hexec₂, by omega⟩

end Rhoudveine.Elf
