import Rhoudveine.Elf.Contents

/-!
# Recycled frames

The load takes the same course whatever the free frames held before, so two executions differ
in nothing but those contents.  They reach the new program: nobody writes the init stack.
-/

namespace Rhoudveine.Elf
open Mm Words Radix

/-! ## `map_page` does not read free frames -/

theorem SameTables.refl (vm : Vm) : SameTables vm vm := ⟨rfl, rfl, fun _ _ _ => rfl⟩

theorem SameTables.symm {vm vm' : Vm} (h : SameTables vm vm') : SameTables vm' vm where
  cr3 := h.cr3.symm
  pfa := h.pfa.symm
  entry k hk j := (h.entry k ((h.isTable k).mp hk) j).symm

/-- Tables of one state that have the walks of another. -/
theorem isTable_of_walks {vm vm' : Vm} (hroot : vm'.root = vm.root)
    (hwalk : ∀ q, q.length ≤ 3 → walk nextTable vm'.entry vm.root q = walk nextTable vm.entry vm.root q)
    {c : UInt64} (hc : vm'.IsTable c) : vm.IsTable c := by
  obtain ⟨q, hq, hc⟩ := hc
  refine ⟨q, hq, ?_⟩
  rw [hroot, hwalk q hq] at hc
  exact hc

/-- The same entry written to both states. -/
theorem SameTables.setEntry {vm vm' : Vm} (h : SameTables vm vm') {k : UInt64}
    (hk : vm.IsTable k) (i : Fin 512) (e : UInt64)
    (htable : ∀ c, (vm.setEntry k i e).IsTable c → vm.IsTable c) :
    SameTables (vm.setEntry k i e) (vm'.setEntry k i e) where
  cr3 := h.cr3
  pfa := h.pfa
  entry c hc j := by
    have hc' := htable c hc
    by_cases hne : c ≠ k ∨ j ≠ i
    · rw [entry_setEntry_of_ne vm hk.aligned hc'.aligned e hne,
        entry_setEntry_of_ne vm' hk.aligned hc'.aligned e hne, h.entry c hc' j]
    · push Not at hne
      rw [hne.1, hne.2, entry_setEntry, entry_setEntry]

/-- The same cleared frame hung into both states. -/
theorem SameTables.newEntry {vm vm' : Vm} (h : SameTables vm vm') {k f : UInt64}
    (hk : vm.IsTable k) (hf : f.toNat % 4096 = 0) (pfa : Pfa) (i : Fin 512) (e : UInt64)
    (htable : ∀ c, ((vm.clearFrame f pfa).setEntry k i e).IsTable c → vm.IsTable c ∨ c = f) :
    SameTables ((vm.clearFrame f pfa).setEntry k i e) ((vm'.clearFrame f pfa).setEntry k i e) where
  cr3 := by
    rw [Vm.setEntry, Vm.clearFrame, Vm.setEntry, Vm.clearFrame]
    exact h.cr3
  pfa := by rw [Vm.setEntry_pfa, Vm.clearFrame_pfa, Vm.setEntry_pfa, Vm.clearFrame_pfa]
  entry c hc j := by
    have hcal : c.toNat % 4096 = 0 := hc.aligned
    by_cases hne : c ≠ k ∨ j ≠ i
    · rw [entry_setEntry_of_ne _ hk.aligned hcal e hne,
        entry_setEntry_of_ne _ hk.aligned hcal e hne]
      by_cases hcf : c = f
      · rw [hcf, entry_clearFrame_self vm hf, entry_clearFrame_self vm' hf]
      · rw [entry_clearFrame_of_ne vm hf hcal hcf, entry_clearFrame_of_ne vm' hf hcal hcf]
        exact h.entry c ((htable c hc).resolve_right hcf) j
    · push Not at hne
      rw [hne.1, hne.2, entry_setEntry, entry_setEntry]

/-- One level of `map_page` in two states with the same tables. -/
theorem descend_same {vm₀ vm vm' : Vm} {flags : UInt64} {p : List (Fin 512)} {k : UInt64}
    (h : Reached vm₀ vm flags p k) (hsame : SameTables vm vm') (hlen : p.length < 3) {i : Fin 512}
    {r : List (Fin 512)} (hw : (p ++ i :: r).length = 4) (hno : vm₀.NoLarge (p ++ i :: r)) :
    (descend vm' flags k i).1 = (descend vm flags k i).1 ∧
      SameTables (descend vm flags k i).2 (descend vm' flags k i).2 := by
  have hk := Vm.isTable_of_walk hlen.le h.walk
  have hentry := hsame.entry k hk i
  rcases descend_cases vm flags k i with ⟨hpres, heq⟩ | ⟨hnot, hz, heq⟩ | ⟨hnot, hz, heq⟩
  · -- the entry is present: both memories get the same bits
    have hlarge := h.not_large hlen hw hno hpres
    obtain ⟨-, hext, hwalk⟩ := orEntry_spec h.ok h.walk hlen flags hlarge
    have heq' : descend vm' flags k i = (some ((vm.entry k i ||| parentFlags flags) &&& paddrMask),
        vm'.setEntry k i (vm.entry k i ||| parentFlags flags)) := by
      rcases descend_cases vm' flags k i with ⟨-, heq'⟩ | ⟨hnot', -⟩ | ⟨hnot', -⟩
      · rw [heq', hentry]
      · rw [hentry, hpres] at hnot'
        cases hnot'
      · rw [hentry, hpres] at hnot'
        cases hnot'
    rw [heq, heq']
    exact ⟨rfl, hsame.setEntry hk i _ fun c => isTable_of_walks hext.root hwalk⟩
  · -- no frame is left: only the bitmap is touched
    have heq' : descend vm' flags k i = (none, { vm' with pfa := (pfaAllocLow vm.pfa).2 }) := by
      rcases descend_cases vm' flags k i with ⟨hpres, -⟩ | ⟨-, -, heq'⟩ | ⟨-, hz', -⟩
      · rw [hentry, hnot] at hpres
        cases hpres
      · rw [heq', hsame.pfa]
      · rw [hsame.pfa] at hz'
        exact absurd hz hz'
    rw [heq, heq']
    exact ⟨rfl, hsame.cr3, rfl, hsame.entry⟩
  · -- a new table, which is cleared in both before it is linked
    obtain ⟨-, hext, hnew, hother⟩ := newEntry_spec h.ok h.walk hlen flags hnot hz rfl
    have hf := ((pfaAllocLow_lowest h.ok.wf).2 hz).1.1
    have heq' : descend vm' flags k i = (some (tableEntry (pfaAllocLow vm.pfa).1 flags &&& paddrMask),
        (vm'.clearFrame (pfaAllocLow vm.pfa).1 (pfaAllocLow vm.pfa).2).setEntry k i
          (tableEntry (pfaAllocLow vm.pfa).1 flags)) := by
      rcases descend_cases vm' flags k i with ⟨hpres, -⟩ | ⟨-, hz', -⟩ | ⟨-, -, heq'⟩
      · rw [hentry, hnot] at hpres
        cases hpres
      · rw [hsame.pfa] at hz'
        exact absurd hz' hz
      · rw [heq', hsame.pfa]
    rw [heq, heq']
    refine ⟨rfl, hsame.newEntry hk hf _ i _ fun c hc => ?_⟩
    obtain ⟨q, hq, hc⟩ := hc
    by_cases hqp : q = p ++ [i]
    · rw [hqp, hnew] at hc
      exact Or.inr (Option.some.inj hc).symm
    · rw [hext.root, hother q hq hqp] at hc
      exact Or.inl ⟨q, hq, hc⟩

/-- Both states run out of frames, or both reach the same next table. -/
theorem descend_both {vm₀ vm vm' : Vm} {flags : UInt64} {p : List (Fin 512)} {k : UInt64}
    (h : Reached vm₀ vm flags p k) (hsame : SameTables vm vm') (hlen : p.length < 3) {i : Fin 512}
    {r : List (Fin 512)} (hw : (p ++ i :: r).length = 4) (hno : vm₀.NoLarge (p ++ i :: r)) :
    (∃ vm₁', descend vm flags k i = (none, vm) ∧ descend vm' flags k i = (none, vm₁') ∧
        SameTables vm vm₁') ∨
      ∃ c vm₁ vm₁', descend vm flags k i = (some c, vm₁) ∧ descend vm' flags k i = (some c, vm₁') ∧
        Reached vm₀ vm₁ flags (p ++ [i]) c ∧ SameTables vm₁ vm₁' := by
  obtain ⟨hres, hsame'⟩ := descend_same h hsame hlen hw hno
  rcases h.descend hlen hw hno with ⟨heq, -⟩ | ⟨c, vm₁, heq, hreach⟩
  · rw [heq] at hres hsame'
    exact Or.inl ⟨(descend vm' flags k i).2, heq, Prod.ext hres rfl, hsame'⟩
  · rw [heq] at hres hsame'
    exact Or.inr ⟨c, vm₁, (descend vm' flags k i).2, heq, Prod.ext hres rfl, hreach, hsame'⟩

/-- `map_page` in two states with the same tables. -/
theorem mapPage_same {vm vm' : Vm} (hok : vm.TreeOk) (hsame : SameTables vm vm')
    {physAddr virtAddr : UInt64} (flags : UInt64) (hphys : physAddr.toNat % 4096 = 0)
    (hpres : bit flags 0 = true) (hno : vm.NoLarge (indices virtAddr)) :
    (mapPage vm' physAddr virtAddr flags).1 = (mapPage vm physAddr virtAddr flags).1 ∧
      SameTables (mapPage vm physAddr virtAddr flags).2 (mapPage vm' physAddr virtAddr flags).2 := by
  unfold mapPage
  rw [hsame.root]
  rcases descend_both (Reached.start hok flags) hsame (by norm_num) rfl hno with
    ⟨vm₁', heq, heq', hsame₁⟩ | ⟨k₁, vm₁, vm₁', heq, heq', h₁, hsame₁⟩
  · rw [heq, heq']
    exact ⟨rfl, hsame₁⟩
  rw [heq, heq']
  dsimp only
  rcases descend_both h₁ hsame₁ (by norm_num) rfl hno with
    ⟨vm₂', heq, heq', hsame₂⟩ | ⟨k₂, vm₂, vm₂', heq, heq', h₂, hsame₂⟩
  · rw [heq, heq']
    exact ⟨rfl, hsame₂⟩
  rw [heq, heq']
  dsimp only
  rcases descend_both h₂ hsame₂ (by norm_num) rfl hno with
    ⟨vm₃', heq, heq', hsame₃⟩ | ⟨k₃, vm₃, vm₃', heq, heq', h₃, hsame₃⟩
  · rw [heq, heq']
    exact ⟨rfl, hsame₃⟩
  rw [heq, heq']
  dsimp only
  -- the leaf write changes no table
  have hk₃ := Vm.isTable_of_walk (le_refl 3) h₃.walk
  obtain ⟨-, -, hkeeps, -, -, hwalk⟩ := h₃.leaf rfl (tableIndex virtAddr 12) hphys hpres rfl
  refine ⟨rfl, hsame₃.setEntry hk₃ _ _ fun c => isTable_of_walks ?_ hwalk⟩
  rw [hkeeps.root, h₃.ext.root]

/-! ## Two executions -/

/-- The page loop in two states with the same tables. -/
theorem mapLoop_same {vm₀ : Vm} {flags : UInt64} (hpres : bit flags 0 = true)
    (hflags : flags &&& paddrMask = 0) (pages : List UInt64) {vm vm' : Vm}
    {F : List (Fin 512) → Option UInt64} {written : UInt64 → Option UInt8}
    (h : UserSpace vm₀ vm F written) (hsame : SameTables vm vm')
    (hno : ∀ c ∈ (vm.budget.load pages).2.1, vm₀.NoLarge (indices c.1)) :
    SameTables (mapLoop vm flags pages).2.2 (mapLoop vm' flags pages).2.2 := by
  induction pages generalizing vm vm' F written with
  | nil => exact hsame
  | cons v pages ih =>
    rw [Budget.load] at hno
    rw [mapLoop, mapLoop]
    dsimp only at hno ⊢
    rw [hsame.pfa]
    by_cases hz : (pfaAllocLow vm.pfa).1 = 0
    · rw [if_pos hz, if_pos hz]
      exact ⟨hsame.cr3, rfl, hsame.entry⟩
    · rw [if_neg (budget_alloc h.ok hz).1] at hno
      rw [if_neg hz, if_neg hz]
      have hnov := hno _ List.mem_cons_self
      obtain ⟨hfree, -⟩ := (pfaAllocLow_lowest h.ok.wf).2 hz
      have hok : Vm.TreeOk { vm with pfa := (pfaAllocLow vm.pfa).2 } :=
        ⟨pfaAllocLow_wellFormed h.ok.wf, h.ok.tree, fun k hk hkfree =>
          h.ok.not_free k hk ((freeFrame_pfaAllocLow h.ok.wf k).mp hkfree).1⟩
      have hsame' : SameTables { vm with pfa := (pfaAllocLow vm.pfa).2 }
          { vm' with pfa := (pfaAllocLow vm.pfa).2 } := ⟨hsame.cr3, rfl, hsame.entry⟩
      have hnext := (mapPage_same hok hsame' flags hfree.1 hpres
        (h.noLarge _ (length_indices v) hnov)).2
      obtain ⟨done, vm₁, heq⟩ : ∃ done vm₁, mapPage { vm with pfa := (pfaAllocLow vm.pfa).2 }
          (pfaAllocLow vm.pfa).1 v flags = (done, vm₁) := ⟨_, _, rfl⟩
      obtain ⟨hspace, hbudget⟩ := h.map hnov hpres hflags hz heq
      rw [heq] at hnext ⊢
      rw [← hbudget] at hno
      exact ih hspace hnext fun c hc => hno c (List.mem_cons_of_mem _ hc)

/-- The pages of a valid segment are user pages. -/
theorem Phdr.Valid.noLarge {size : UInt32} {ph : Phdr} (h : ph.Valid size) {vm₀ : Vm}
    (hno : ∀ v, UserHalf v → vm₀.NoLarge (indices v)) {b : Budget} {c : UInt64 × Bool}
    (hc : c ∈ (b.load ph.pages).2.1) : vm₀.NoLarge (indices c.1) := by
  apply hno
  have := h.page_user (Budget.mem_of_mem_load hc)
  unfold UserHalf
  omega

/-- The segments of a valid image loaded in two states with the same tables. -/
theorem loadSegments_same {vm₀ vm₀' : Vm} (hno : ∀ v, UserHalf v → vm₀.NoLarge (indices v))
    (hno' : ∀ v, UserHalf v → vm₀'.NoLarge (indices v)) (image : Memory) (size : UInt32)
    (offs : List UInt64) (hvalid : ∀ ph ∈ loadHeaders image offs, ph.Valid size) {vm vm' : Vm}
    {F F' : List (Fin 512) → Option UInt64} {written written' : UInt64 → Option UInt8}
    (h : UserSpace vm₀ vm F written) (h' : UserSpace vm₀' vm' F' written')
    (hsame : SameTables vm vm')
    (hloads : vm.budget.Loads (segmentPages (loadHeaders image offs))) :
    SameTables (loadSegments vm image size offs).2.2 (loadSegments vm' image size offs).2.2 := by
  induction offs generalizing vm vm' F F' written written' with
  | nil => exact hsame
  | cons off offs ih =>
    rw [loadHeaders_cons] at hvalid hloads
    rw [loadSegments, loadSegments, loadSegment, loadSegment]
    dsimp only
    generalize phdrAt image off = ph at hvalid hloads ⊢
    by_cases htype : ph.pType = ptLoad
    swap
    · rw [if_neg htype] at hvalid hloads
      rw [if_pos htype, if_pos htype]
      exact ih hvalid h h' hsame hloads
    rw [if_pos htype] at hvalid hloads
    obtain ⟨hph, hphs⟩ := List.forall_mem_cons.mp hvalid
    rw [segmentPages, List.flatMap_cons, ← segmentPages] at hloads
    obtain ⟨hloads₁, hloads₂⟩ := Budget.loads_append.mp hloads
    have hmapped := mapLoop_same (segFlags_present ph) (segFlags_mask ph) ph.pages h hsame
      fun c hc => hph.noLarge hno hc
    have hok := (mapLoop_spec (segFlags_present ph) (segFlags_mask ph) ph.pages h
      fun c hc => hph.noLarge hno hc).1
    have hok' := (mapLoop_spec (segFlags_present ph) (segFlags_mask ph) ph.pages h'
      fun c hc => hph.noLarge hno' hc).1
    rw [hsame.budget] at hok'
    obtain ⟨G, -, hspace, hcopied, hbudget⟩ := segment_spec image ph h
      (fun c hc => hph.noLarge hno hc) hloads₁.1 (hph.writesFit hloads₁)
    rw [← hsame.budget] at hloads₁
    obtain ⟨G', -, hspace', hcopied', -⟩ := segment_spec image ph h'
      (fun c hc => hph.noLarge hno' hc) hloads₁.1 (hph.writesFit hloads₁)
    rw [hsame.budget] at hloads₁
    rw [if_neg (not_not.mpr htype), if_neg hph.in_bounds, if_neg (not_not.mpr htype),
      if_neg hph.in_bounds, hok, hok', if_pos hloads₁.1]
    dsimp only
    rw [if_pos hloads₁.1]
    apply ih hphs hspace hspace' (hcopied.symm.trans (hmapped.trans hcopied'))
    rw [hbudget]
    exact hloads₂

/-- Two executions that differ only in what the free frames held end with the same page
tables and the same allocator. -/
theorem load_same {vm vm' : Vm} (hok : vm.TreeOk)
    (hno : ∀ v, UserHalf v → vm.NoLarge (indices v)) {image : Memory} {size : UInt32}
    (hvalid : ValidImage image size) (hloads : vm.budget.Loads (programPages image))
    (hsame : SameTables vm vm') :
    SameTables (elf64LoadAndRun vm image size).2.2 (elf64LoadAndRun vm' image size).2.2 := by
  have hok' := hsame.treeOk hok
  have hno' (v : UInt64) (hv : UserHalf v) := hsame.noLarge (length_indices v) (hno v hv)
  obtain ⟨hloads₁, hloads₂⟩ := Budget.loads_append.mp hloads
  have hloads₁' := hloads₁
  rw [← hsame.budget] at hloads₁'
  have hstart := UserSpace.start hok fun _ => none
  have hstart' := UserSpace.start hok' fun _ => none
  obtain ⟨hcode, hbudget, F, hspace, -⟩ := loadSegments_spec hno image size
    (phdrOffsets image) hvalid.segments hstart hloads₁
  obtain ⟨hcode', hbudget', F', hspace', -⟩ := loadSegments_spec hno' image size
    (phdrOffsets image) hvalid.segments hstart' hloads₁'
  have hsegments := loadSegments_same hno hno' image size (phdrOffsets image) hvalid.segments
    hstart hstart' hsame hloads₁
  have huser (c : UInt64 × Bool) {b : Budget} (hc : c ∈ (b.load stackPages).2.1) : UserHalf c.1 :=
    (mem_stackPages (Budget.mem_of_mem_load hc)).2.2
  simp only [elf64LoadAndRun, if_neg (UInt32.not_lt.mpr hvalid.header), hvalid.magic,
    hvalid.class64, hcode, hcode']
  generalize (loadSegments vm image size (phdrOffsets image)).2.2 = vm₁ at hspace hsegments hbudget ⊢
  generalize (loadSegments vm' image size (phdrOffsets image)).2.2 = vm₁' at hspace' hsegments ⊢
  have hstack := (mapLoop_spec stackFlags_present stackFlags_mask stackPages hspace
    fun c hc => hno _ (huser c hc)).1
  have hstack' := (mapLoop_spec stackFlags_present stackFlags_mask stackPages hspace'
    fun c hc => hno' _ (huser c hc)).1
  have hfinal := mapLoop_same stackFlags_present stackFlags_mask stackPages hspace
    hsegments fun c hc => hno _ (huser c hc)
  rw [← hbudget] at hloads₂
  rw [hsegments.budget] at hstack'
  rw [hstack, hstack', if_pos hloads₂.1]
  simpa [hloads₂.1] using hfinal

/-! ## What the new program can read -/

theorem AgreeOff.mono {S T : UInt64 → Prop} (hST : ∀ k, S k → T k) {vm vm' : Vm}
    (h : AgreeOff S vm vm') : AgreeOff T vm vm' :=
  ⟨h.cr3, h.pfa, fun x hx => h.mem x fun hS => hx (hST _ hS)⟩

/-- A frame the load took from the free low frames. -/
def HandedOut (vm : Vm) (image : Memory) (size : UInt32) (k : UInt64) : Prop :=
  FreeLow vm.pfa k ∧ ¬ FreeFrame (elf64LoadAndRun vm image size).2.2.pfa k

/-- A second execution that differs in one byte of a frame handed out, and in that byte of the
init stack when the program starts. -/
theorem stack_byte_differs {vm : Vm} (hok : vm.TreeOk)
    (hno : ∀ v, UserHalf v → vm.NoLarge (indices v)) {image : Memory} {size : UInt32}
    (hvalid : ValidImage image size) (hloads : vm.budget.Loads (programPages image)) :
    ∃ vm', AgreeOff (HandedOut vm image size) vm vm' ∧
      readVirt (elf64LoadAndRun vm' image size).2.2 initStackBottom ≠
        readVirt (elf64LoadAndRun vm image size).2.2 initStackBottom := by
  obtain ⟨-, -, F, hspace, hframes⟩ := load_spec hok hno hvalid hloads
  have hmem : initStackBottom ∈ stackPages := by decide
  have hpage : pageOf initStackBottom = initStackBottom := by decide
  have huser : UserHalf initStackBottom := (mem_stackPages hmem).2.2
  have hprogram : initStackBottom ∈ programPages image := List.mem_append_right _ hmem
  obtain ⟨f, hf⟩ := hframes _ hprogram
  have hfree := hspace.frame_free _ f hf
  obtain ⟨x, hx⟩ : ∃ x, f + inPage initStackBottom = x := ⟨_, rfl⟩
  have hxf : pageOf x = f := by
    rw [← hx]
    exact pageOf_frame_add hfree.1 _
  have hagree : AgreeOff (HandedOut vm image size) vm
      { vm with mem := vm.mem.store8 x (vm.mem x + 1) } := by
    refine ⟨rfl, rfl, fun y hy => Function.update_of_ne ?_ _ _⟩
    rintro rfl
    rw [hxf] at hy
    exact hy ⟨hfree, hspace.frame_used _ f hf⟩
  refine ⟨_, hagree, fun hread => ?_⟩
  have hsame := (hagree.mono fun _ hk => hk.1).sameTables hok
  have hfinal := load_same hok hno hvalid hloads hsame
  rw [← hsame.budget] at hloads
  obtain ⟨-, -, F', hspace', hframes'⟩ := load_spec (hsame.treeOk hok)
    (fun v hv => hsame.noLarge (length_indices v) (hno v hv)) hvalid hloads
  obtain ⟨f', hf'⟩ := hframes' _ hprogram
  -- both executions give the page the same frame
  have hphys : (elf64LoadAndRun { vm with mem := vm.mem.store8 x (vm.mem x + 1) } image size).2.2.physAt
      initStackBottom = (elf64LoadAndRun vm image size).2.2.physAt initStackBottom := by
    rw [Vm.physAt, Vm.physAt, hfinal.lookup]
  rw [hspace'.physAt hf', hspace.physAt hf, Option.some.injEq, hx] at hphys
  have hnone : finalWritten image initStackBottom = none := if_pos (by rwa [hpage])
  rw [hspace'.readVirt huser hf', hspace.readVirt huser hf, hnone, hphys, hx, Option.getD_none,
    Option.getD_none, Option.some.injEq] at hread
  exact add_one_ne_self _ ((Function.update_self _ _ _).symm.trans hread)

theorem initStackBottom_mem (image : Memory) : pageOf initStackBottom ∈ programPages image :=
  List.mem_append_right _ (by decide)

/-- For no valid image does the new program see the same bytes whatever was left in the frames
it was given. -/
theorem load_discloses {vm : Vm} (hok : vm.TreeOk)
    (hno : ∀ v, UserHalf v → vm.NoLarge (indices v)) {image : Memory} {size : UInt32}
    (hvalid : ValidImage image size) (hloads : vm.budget.Loads (programPages image)) :
    ¬ ∀ vm', AgreeOff (HandedOut vm image size) vm vm' → ∀ a, pageOf a ∈ programPages image →
      readVirt (elf64LoadAndRun vm' image size).2.2 a =
        readVirt (elf64LoadAndRun vm image size).2.2 a := by
  intro hall
  obtain ⟨vm', hagree, hne⟩ := stack_byte_differs hok hno hvalid hloads
  exact hne (hall vm' hagree _ (initStackBottom_mem image))

/-- The file with two segments, in a machine with clear memory. -/
theorem load_discloses_clear :
    ∃ m, mmInit 0 (some [⟨0x100000, 0x100000, 0⟩]) = some m ∧
      ¬ ∀ vm', AgreeOff (HandedOut (bootVm 0x1000 m.pfa) (twoSegments 0x401000) 176)
          (bootVm 0x1000 m.pfa) vm' → ∀ a, pageOf a ∈ programPages (twoSegments 0x401000) →
        readVirt (elf64LoadAndRun vm' (twoSegments 0x401000) 176).2.2 a =
          readVirt (elf64LoadAndRun (bootVm 0x1000 m.pfa) (twoSegments 0x401000) 176).2.2 a := by
  obtain ⟨m, hm⟩ := mmInit_isSome 0
    (show bitmapPlacementAddr [⟨0x100000, 0x100000, 0⟩] ≠ 0 by decide)
  obtain ⟨hok, -, hno⟩ := bootVm_ok hm
  exact ⟨m, hm, load_discloses hok (fun v _ => hno (indices v))
    (twoSegments_valid twoSegments_apart (by decide) (by decide))
    (twoSegments_loads hm (by decide +kernel))⟩

/-- The lowest byte of the init stack is what the frame held. -/
theorem stack_byte_leaks :
    ∃ m vm', mmInit 0 (some [⟨0x100000, 0x100000, 0⟩]) = some m ∧
      ValidImage (twoSegments 0x401000) 176 ∧
      AgreeOff (HandedOut (bootVm 0x1000 m.pfa) (twoSegments 0x401000) 176)
        (bootVm 0x1000 m.pfa) vm' ∧
      pageOf initStackBottom ∈ programPages (twoSegments 0x401000) ∧
      readVirt (elf64LoadAndRun vm' (twoSegments 0x401000) 176).2.2 initStackBottom ≠
        readVirt (elf64LoadAndRun (bootVm 0x1000 m.pfa) (twoSegments 0x401000) 176).2.2
          initStackBottom := by
  obtain ⟨m, hm⟩ := mmInit_isSome 0
    (show bitmapPlacementAddr [⟨0x100000, 0x100000, 0⟩] ≠ 0 by decide)
  obtain ⟨hok, -, hno⟩ := bootVm_ok hm
  have hvalid := twoSegments_valid twoSegments_apart (by decide) (by decide)
  obtain ⟨vm', hagree, hne⟩ := stack_byte_differs hok (fun v _ => hno (indices v)) hvalid
    (twoSegments_loads hm (by decide +kernel))
  exact ⟨m, vm', hm, hvalid, hagree, initStackBottom_mem _, hne⟩

end Rhoudveine.Elf
