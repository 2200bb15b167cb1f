import Rhoudveine.Elf.Segments

/-!
# The memory of a loaded program

What the segments of a valid image and the init stack hold when the program starts.
-/

namespace Rhoudveine.Elf
open Mm Words

/-! ## Valid images -/

/-- The `PT_LOAD` headers. -/
def loadHeaders (image : Memory) (offs : List UInt64) : List Phdr :=
  (offs.map (phdrAt image)).filter fun ph => ph.pType = ptLoad

/-- The first address of the init stack. -/
def initStackBottom : UInt64 := initStackTop - 4 * 4096

/-- A segment below the init stack whose bytes are in the file. -/
structure Phdr.Valid (size : UInt32) (ph : Phdr) : Prop where
  filesz_le : ph.pFilesz.toNat ≤ ph.pMemsz.toNat
  below_stack : ph.pVaddr.toNat + ph.pMemsz.toNat ≤ initStackBottom.toNat
  in_file : ph.pOffset.toNat + ph.pFilesz.toNat ≤ size.toNat

/-- An ELF64 file with valid segments that share no byte. -/
structure ValidImage (image : Memory) (size : UInt32) : Prop where
  header : ehdrSize ≤ size
  magic : validMagic image = true
  class64 : image 4 = 2
  segments : ∀ ph ∈ loadHeaders image (phdrOffsets image), ph.Valid size
  disjoint : (loadHeaders image (phdrOffsets image)).Pairwise fun ph ph' =>
    ∀ a, ¬ (Memory.InRange ph.pVaddr ph.pMemsz.toNat a ∧
      Memory.InRange ph'.pVaddr ph'.pMemsz.toNat a)

/-- The pages of the segments, in the order in which they are mapped. -/
def segmentPages (segs : List Phdr) : List UInt64 := segs.flatMap Phdr.pages

/-- The pages of the program. -/
def programPages (image : Memory) : List UInt64 :=
  segmentPages (loadHeaders image (phdrOffsets image)) ++ stackPages

theorem loadHeaders_cons (image : Memory) (off : UInt64) (offs : List UInt64) :
    loadHeaders image (off :: offs) =
      if (phdrAt image off).pType = ptLoad then phdrAt image off :: loadHeaders image offs
      else loadHeaders image offs := by
  unfold loadHeaders
  rw [List.map_cons, List.filter_cons]
  simp only [decide_eq_true_eq]

section valid

variable {size : UInt32} {ph : Phdr} (h : ph.Valid size)
include h

theorem Phdr.Valid.span_eq : ph.span = ph.pMemsz.toNat := max_eq_right h.filesz_le

theorem Phdr.Valid.no_wrap : ph.pVaddr.toNat + ph.pMemsz.toNat ≤ 0x6FFFFFFFC000 := h.below_stack

theorem Phdr.Valid.page_user {v : UInt64} (hv : v ∈ ph.pages) :
    v.toNat % 4096 = 0 ∧ v.toNat < 0x6FFFFFFFC000 := by
  have hlt := h.no_wrap
  obtain ⟨hal, -, hend⟩ := Phdr.mem_pages.mp hv
  rw [Phdr.toNat_pageEnd (by omega)] at hend
  omega

theorem Phdr.Valid.writesFit {b : Budget} (hloads : b.Loads ph.pages) : WritesFit b ph := by
  intro _
  have hlt := h.no_wrap
  rw [h.span_eq, Phdr.toNat_pageEnd (by omega)]
  exact ⟨by omega, by omega, hloads.2⟩

theorem Phdr.Valid.in_bounds : ¬ ph.pOffset + ph.pFilesz > size.toUInt64 := by
  have hfile := h.in_file
  have hsize := size.toNat_lt
  rw [gt_iff_lt, UInt64.lt_iff_toNat_lt, UInt64.toNat_add, UInt32.toNat_toUInt64]
  omega

end valid

/-! ## What is written where -/

/-- The bytes a segment leaves: its own, those outside its pages, and nothing in the rest of
its pages. -/
def writtenBy (image : Memory) (written : UInt64 → Option UInt8) (ph : Phdr) (a : UInt64) :
    Option UInt8 :=
  (ph.byteAt image a).or (if pageOf a ∈ ph.pages then none else written a)

theorem UserSpace.congr {vm₀ vm : Vm} {F : List (Fin 512) → Option UInt64}
    {written written' : UInt64 → Option UInt8} (h : UserSpace vm₀ vm F written)
    (hw : ∀ a, UserHalf a → written a = written' a) : UserSpace vm₀ vm F written' :=
  { h with content := fun a f ha hf => hw a ha ▸ h.content a f ha hf }

/-- Completed calls for pages of the user half are found by the page of an address. -/
theorem doneAt_iff {calls : List (UInt64 × Bool)} {pages : List UInt64}
    (hkeys : calls.map Prod.fst = pages) (hdone : ∀ c ∈ calls, c.2 = true)
    (hpages : ∀ v ∈ pages, v.toNat % 4096 = 0 ∧ UserHalf v) {a : UInt64} (ha : UserHalf a) :
    doneAt calls (indices a) = true ↔ pageOf a ∈ pages := by
  unfold doneAt
  rw [List.any_eq_true, ← hkeys]
  constructor
  · intro ⟨c, hc, hca⟩
    have hmem := List.mem_map_of_mem (f := Prod.fst) hc
    obtain ⟨hal, huser⟩ := hpages c.1 (hkeys ▸ hmem)
    have hindices : indices c.1 = indices a := by simpa [hdone c hc] using hca
    have hpage := page_of_indices huser ha hindices
    have heq : pageOf a = c.1 := by
      apply UInt64.toNat_inj.mp
      rw [toNat_pageOf]
      omega
    rw [heq]
    exact hmem
  · intro hmem
    obtain ⟨c, hc, hca⟩ := List.mem_map.mp hmem
    refine ⟨c, hc, ?_⟩
    rw [hdone c hc, hca, indices_pageOf]
    simp

/-- The segments of a valid image are all loaded. -/
theorem loadSegments_spec {vm₀ : Vm} (hno : ∀ v, UserHalf v → vm₀.NoLarge (indices v))
    (image : Memory) (size : UInt32) (offs : List UInt64)
    (hvalid : ∀ ph ∈ loadHeaders image offs, ph.Valid size) {vm : Vm}
    {F : List (Fin 512) → Option UInt64} {written : UInt64 → Option UInt8}
    (h : UserSpace vm₀ vm F written)
    (hloads : vm.budget.Loads (segmentPages (loadHeaders image offs))) :
    (loadSegments vm image size offs).1 = none ∧
      (loadSegments vm image size offs).2.2.budget =
        (vm.budget.load (segmentPages (loadHeaders image offs))).2.2 ∧
      ∃ F', UserSpace vm₀ (loadSegments vm image size offs).2.2 F'
          ((loadHeaders image offs).foldl (writtenBy image) written) ∧
        (∀ w f, F w = some f → ∃ f', F' w = some f') ∧
        ∀ v ∈ segmentPages (loadHeaders image offs), ∃ f, F' (indices v) = some f := by
  induction offs generalizing vm F written with
  | nil => exact ⟨rfl, rfl, F, h, fun _ f hf => ⟨f, hf⟩, by simp [loadHeaders, segmentPages]⟩
  | cons off offs ih =>
    rw [loadHeaders_cons] at hvalid hloads ⊢
    rw [loadSegments, loadSegment]
    dsimp only
    generalize phdrAt image off = ph at hvalid hloads ⊢
    by_cases htype : ph.pType = ptLoad
    swap
    · -- a header of another type maps and copies nothing
      rw [if_neg htype] at hvalid hloads ⊢
      rw [if_pos htype]
      exact ih hvalid h hloads
    rw [if_pos htype] at hvalid hloads ⊢
    obtain ⟨hph, hphs⟩ := List.forall_mem_cons.mp hvalid
    rw [segmentPages, List.flatMap_cons, ← segmentPages] at hloads ⊢
    obtain ⟨hloads₁, hloads₂⟩ := Budget.loads_append.mp hloads
    have huser (v : UInt64) (hv : v ∈ ph.pages) : v.toNat % 4096 = 0 ∧ UserHalf v := by
      have := hph.page_user hv
      unfold UserHalf
      omega
    have hnoload (c) (hc : c ∈ (vm.budget.load ph.pages).2.1) : vm₀.NoLarge (indices c.1) :=
      hno _ (huser _ (Budget.mem_of_mem_load hc)).2
    have hok := (mapLoop_spec (segFlags_present ph) (segFlags_mask ph) ph.pages h hnoload).1
    obtain ⟨F', hmapped, hspace, -, hbudget⟩ :=
      segment_spec image ph h hnoload hloads₁.1 (hph.writesFit hloads₁)
    have hkeys := Budget.load_keys hloads₁.1
    have hspace : UserSpace vm₀ _ F' (writtenBy image written ph) := hspace.congr fun a ha => by
      unfold writtenBy
      simp only [doneAt_iff hkeys hloads₁.2 huser ha]
    rw [if_neg (not_not.mpr htype), if_neg hph.in_bounds, hok, if_pos hloads₁.1]
    dsimp only
    -- the segments that follow find the budget this one leaves
    rw [← hbudget] at hloads₂
    obtain ⟨hcode, hbudget', F'', hspace', hkeep, hframes⟩ := ih hphs hspace hloads₂
    refine ⟨hcode, ?_, F'', hspace', ?_, ?_⟩
    · rw [hbudget', hbudget, Budget.load_append_budget hloads₁]
    · intro w f hf
      -- a page of this segment has the frame it was just given, any other its old one
      by_cases hdone : doneAt (vm.budget.load ph.pages).2.1 w = true
      · obtain ⟨g, hg⟩ := hmapped.done w hdone
        exact hkeep w g hg
      · rw [← hmapped.other w (Bool.eq_false_iff.mpr hdone)] at hf
        exact hkeep w f hf
    · intro v hv
      rcases List.mem_append.mp hv with hv | hv
      · have hmem : v ∈ (vm.budget.load ph.pages).2.1.map Prod.fst := by
          rw [hkeys]
          exact hv
        obtain ⟨c, hc, rfl⟩ := List.mem_map.mp hmem
        obtain ⟨g, hg⟩ := hmapped.done (indices c.1) (doneAt_of_mem (by
          rw [← hloads₁.2 c hc]
          exact hc))
        exact hkeep _ g hg
      · exact hframes v hv

/-! ## The init stack -/

theorem mem_stackPages {v : UInt64} (hv : v ∈ stackPages) :
    v.toNat % 4096 = 0 ∧ initStackBottom.toNat ≤ v.toNat ∧ v.toNat < 2 ^ 47 := by
  obtain ⟨i, hi, hv⟩ := List.mem_map.mp hv
  have hi' : i < 4 := List.mem_range.mp hi
  rw [← hv]
  interval_cases i <;> decide

theorem stackFlags_present : bit stackFlags 0 = true := by decide

theorem stackFlags_mask : stackFlags &&& paddrMask = 0 := by decide

/-- What has been written to the pages of the program when it starts. -/
def finalWritten (image : Memory) (a : UInt64) : Option UInt8 :=
  if pageOf a ∈ stackPages then none
  else (loadHeaders image (phdrOffsets image)).foldl (writtenBy image) (fun _ => none) a

/-- A valid image is loaded when the frames suffice. -/
theorem load_spec {vm : Vm} (hok : vm.TreeOk) (hno : ∀ v, UserHalf v → vm.NoLarge (indices v))
    {image : Memory} {size : UInt32} (hvalid : ValidImage image size)
    (hloads : vm.budget.Loads (programPages image)) :
    (elf64LoadAndRun vm image size).1 = .jump (eEntry image) initStackTop ∧
      (elf64LoadAndRun vm image size).2.2.budget = (vm.budget.load (programPages image)).2.2 ∧
      ∃ F, UserSpace vm (elf64LoadAndRun vm image size).2.2 F (finalWritten image) ∧
        ∀ v ∈ programPages image, ∃ f, F (indices v) = some f := by
  obtain ⟨hloads₁, hloads₂⟩ := Budget.loads_append.mp hloads
  obtain ⟨hcode, hbudget, F, hspace, -, hframes⟩ := loadSegments_spec hno image size
    (phdrOffsets image) hvalid.segments (UserSpace.start hok fun _ => none) hloads₁
  have huser (v : UInt64) (hv : v ∈ stackPages) : v.toNat % 4096 = 0 ∧ UserHalf v := by
    obtain ⟨hal, -, hlt⟩ := mem_stackPages hv
    exact ⟨hal, hlt⟩
  rw [elf64LoadAndRun, if_neg (UInt32.not_lt.mpr hvalid.header), if_neg (by simp [hvalid.magic]),
    if_neg (not_not.mpr hvalid.class64)]
  dsimp only
  rw [hcode]
  dsimp only
  generalize (loadSegments vm image size (phdrOffsets image)).2.2 = vm₁ at hbudget hspace ⊢
  have htotal := Budget.load_append_budget hloads₁ stackPages
  rw [← hbudget] at hloads₂ htotal
  obtain ⟨hstack, -, hbudget', F', hmapped⟩ := mapLoop_spec stackFlags_present stackFlags_mask
    stackPages hspace fun c hc => hno _ (huser _ (Budget.mem_of_mem_load hc)).2
  rw [hstack, if_pos hloads₂.1]
  have hkeys := Budget.load_keys hloads₂.1
  refine ⟨rfl, hbudget'.trans htotal.symm, F', hmapped.space.congr fun a ha => ?_, ?_⟩
  · unfold finalWritten
    simp only [doneAt_iff hkeys hloads₂.2 huser ha]
  · intro v hv
    by_cases hdone : doneAt (vm₁.budget.load stackPages).2.1 (indices v) = true
    · exact hmapped.done _ hdone
    · rw [hmapped.other _ (Bool.eq_false_iff.mpr hdone)]
      rcases List.mem_append.mp hv with hv | hv
      · exact hframes v hv
      · have hpage : pageOf v = v := pageOf_of_inFrame (huser v hv).1 (by
          rw [inFrame_iff (huser v hv).1])
        apply absurd _ hdone
        rw [doneAt_iff hkeys hloads₂.2 huser (huser v hv).2, hpage]
        exact hv

/-- What a loaded program reads from one of its pages. -/
theorem UserSpace.readVirt {vm₀ vm : Vm} {F : List (Fin 512) → Option UInt64}
    {written : UInt64 → Option UInt8} (h : UserSpace vm₀ vm F written) {a f : UInt64}
    (ha : UserHalf a) (hf : F (indices a) = some f) :
    readVirt vm a = some ((written a).getD (vm₀.mem (f + inPage a))) := by
  rw [Elf.readVirt, h.physAt hf, Option.map_some, h.content a f ha hf]

/-! ## The contents of the free frames -/

instance (s : Pfa) (p : UInt64) : Decidable (FreeLow s p) :=
  inferInstanceAs (Decidable (_ ∧ _ ∧ _))

/-- `vm'` is `vm` up to the contents of the frames in `S`. -/
structure AgreeOff (S : UInt64 → Prop) (vm vm' : Vm) : Prop where
  cr3 : vm'.cr3 = vm.cr3
  pfa : vm'.pfa = vm.pfa
  mem : ∀ x, ¬ S (pageOf x) → vm'.mem x = vm.mem x

/-- The free low frames are no tables. -/
theorem AgreeOff.sameTables {vm vm' : Vm} (hok : vm.TreeOk)
    (h : AgreeOff (FreeLow vm.pfa) vm vm') : SameTables vm vm' := by
  refine ⟨h.cr3, h.pfa, fun k hk j => ?_⟩
  rw [Vm.entry_eq, Vm.entry_eq]
  apply Memory.load64_congr
  intro x hx
  apply h.mem
  intro hfree
  rw [pageOf_of_inFrame hk.aligned (inFrame_of_inRange_entryAddr hk.aligned hx)] at hfree
  exact hok.not_free k hk (Or.inl hfree)

/-- The free low frames filled with `b`. -/
def fillFree (vm : Vm) (b : UInt8) : Vm :=
  { vm with mem := fun x => if FreeLow vm.pfa (pageOf x) then b else vm.mem x }

theorem fillFree_agree (vm : Vm) (b : UInt8) : AgreeOff (FreeLow vm.pfa) vm (fillFree vm b) :=
  ⟨rfl, rfl, fun _ hx => if_neg hx⟩

/-! ## Segments that share a page -/

/-- A later segment has the page of a byte of an earlier one. -/
theorem foldl_writtenBy (image : Memory) (segs : List Phdr) (written : UInt64 → Option UInt8)
    (a : UInt64) (hno : ∀ ph ∈ segs, ph.byteAt image a = none) :
    segs.foldl (writtenBy image) written a =
      if ∃ ph ∈ segs, pageOf a ∈ ph.pages then none else written a := by
  induction segs generalizing written with
  | nil => simp
  | cons ph segs ih =>
    obtain ⟨hph, hsegs⟩ := List.forall_mem_cons.mp hno
    rw [List.foldl_cons, ih _ hsegs]
    unfold writtenBy
    rw [hph, Option.none_or]
    by_cases hpage : pageOf a ∈ ph.pages
    · rw [if_pos hpage, ite_self, if_pos ⟨ph, List.mem_cons_self, hpage⟩]
    · rw [if_neg hpage]
      simp [hpage]

theorem Phdr.byteAt_eq_none {ph : Phdr} {image : Memory} {a : UInt64}
    (hle : ph.pFilesz.toNat ≤ ph.pMemsz.toNat)
    (ha : ¬ Memory.InRange ph.pVaddr ph.pMemsz.toNat a) : ph.byteAt image a = none := by
  unfold Memory.InRange at ha
  unfold Phdr.byteAt
  rw [if_neg (by rw [UInt64.lt_iff_toNat_lt]; omega), if_neg (by rwa [UInt64.lt_iff_toNat_lt])]

/-- The byte `i` of a segment. -/
def Phdr.byte (ph : Phdr) (image : Memory) (i : ℕ) : UInt8 :=
  if i < ph.pFilesz.toNat then image (ph.pOffset + UInt64.ofNat i) else 0

theorem Phdr.byteAt_add {ph : Phdr} {image : Memory} {i : ℕ} (hi : i < ph.pMemsz.toNat) :
    ph.byteAt image (ph.pVaddr + UInt64.ofNat i) = some (ph.byte image i) := by
  have hlt := ph.pMemsz.toNat_lt
  have hsub : ph.pVaddr + UInt64.ofNat i - ph.pVaddr = UInt64.ofNat i := by
    rw [UInt64.add_comm, UInt64.add_sub_cancel]
  have hnat : (UInt64.ofNat i).toNat = i := by
    rw [UInt64.toNat_ofNat']
    omega
  unfold Phdr.byteAt Phdr.byte
  simp only [hsub, UInt64.lt_iff_toNat_lt, hnat, if_pos hi]
  split
  · rfl
  · rfl

theorem Phdr.inRange_add {ph : Phdr} {i : ℕ} (hi : i < ph.pMemsz.toNat) :
    Memory.InRange ph.pVaddr ph.pMemsz.toNat (ph.pVaddr + UInt64.ofNat i) := by
  have hlt := ph.pMemsz.toNat_lt
  unfold Memory.InRange
  rw [UInt64.add_comm, UInt64.add_sub_cancel, UInt64.toNat_ofNat']
  omega

/-- A byte of a segment is there at the end unless a later segment has its page. -/
theorem finalWritten_segment {image : Memory} {size : UInt32} (hvalid : ValidImage image size)
    {before after : List Phdr} {ph : Phdr}
    (hsplit : loadHeaders image (phdrOffsets image) = before ++ ph :: after) {i : ℕ}
    (hi : i < ph.pMemsz.toNat) :
    finalWritten image (ph.pVaddr + UInt64.ofNat i) =
      if ∃ ph' ∈ after, pageOf (ph.pVaddr + UInt64.ofNat i) ∈ ph'.pages then none
      else some (ph.byte image i) := by
  have hin := ph.inRange_add hi
  have hph := hvalid.segments ph (by simp [hsplit])
  have hdisjoint := hvalid.disjoint
  rw [hsplit, List.pairwise_append, List.pairwise_cons] at hdisjoint
  have hafter : ∀ ph' ∈ after, ph'.byteAt image (ph.pVaddr + UInt64.ofNat i) = none := by
    intro ph' hph'
    apply Phdr.byteAt_eq_none (hvalid.segments ph' (by simp [hsplit, hph'])).filesz_le
    exact fun hin' => hdisjoint.2.1.1 ph' hph' _ ⟨hin, hin'⟩
  have hstack : pageOf (ph.pVaddr + UInt64.ofNat i) ∉ stackPages := by
    intro hmem
    obtain ⟨-, hge, -⟩ := mem_stackPages hmem
    have hbelow := hph.below_stack
    have hlt := initStackBottom.toNat_lt
    rw [Memory.inRange_iff (by omega)] at hin
    rw [toNat_pageOf] at hge
    omega
  unfold finalWritten
  rw [if_neg hstack, hsplit, List.foldl_append, List.foldl_cons, foldl_writtenBy _ _ _ _ hafter]
  unfold writtenBy
  rw [Phdr.byteAt_add hi, Option.some_or]

/-- The memory of a segment holds its file bytes and the zeros behind them. -/
def SegmentInMemory (vm : Vm) (image : Memory) (ph : Phdr) : Prop :=
  ∀ i < ph.pMemsz.toNat, readVirt vm (ph.pVaddr + UInt64.ofNat i) = some (ph.byte image i)

/-- What the program reads at a byte of a segment. -/
theorem readVirt_segment {vm : Vm} (hok : vm.TreeOk)
    (hno : ∀ v, UserHalf v → vm.NoLarge (indices v)) {image : Memory} {size : UInt32}
    (hvalid : ValidImage image size) (hloads : vm.budget.Loads (programPages image))
    {before after : List Phdr} {ph : Phdr}
    (hsplit : loadHeaders image (phdrOffsets image) = before ++ ph :: after) {i : ℕ}
    (hi : i < ph.pMemsz.toNat) :
    ∃ f, FreeLow vm.pfa f ∧
      readVirt (elf64LoadAndRun vm image size).2.2 (ph.pVaddr + UInt64.ofNat i) =
        if ∃ ph' ∈ after, pageOf (ph.pVaddr + UInt64.ofNat i) ∈ ph'.pages then
          some (vm.mem (f + inPage (ph.pVaddr + UInt64.ofNat i)))
        else some (ph.byte image i) := by
  obtain ⟨-, -, F, hspace, hframes⟩ := load_spec hok hno hvalid hloads
  have hph := hvalid.segments ph (by simp [hsplit])
  have hin := ph.inRange_add hi
  have hwrites : ph.pVaddr.toNat + ph.span ≤ ph.pageEnd.toNat := by
    have := hph.no_wrap
    rw [hph.span_eq, Phdr.toNat_pageEnd (by omega)]
    omega
  have huser : UserHalf (ph.pVaddr + UInt64.ofNat i) := by
    have := hph.no_wrap
    rw [Memory.inRange_iff (by omega)] at hin
    unfold UserHalf
    omega
  have hpage := pageOf_mem_pages hwrites (hph.span_eq ▸ hin)
  obtain ⟨f, hf⟩ := hframes (pageOf (ph.pVaddr + UInt64.ofNat i)) (by
    apply List.mem_append_left
    apply List.mem_flatMap.mpr
    exact ⟨ph, by simp [hsplit], hpage⟩)
  rw [indices_pageOf] at hf
  refine ⟨f, hspace.frame_free _ _ hf, ?_⟩
  rw [hspace.readVirt huser hf, finalWritten_segment hvalid hsplit hi]
  split
  · rfl
  · rfl

theorem pairwise_of_split {α : Type*} {R : α → α → Prop} {l : List α}
    (h : ∀ before x after, l = before ++ x :: after → ∀ y ∈ after, R x y) : l.Pairwise R := by
  induction l with
  | nil => exact List.Pairwise.nil
  | cons x l ih =>
    apply List.Pairwise.cons
    · exact h [] x l rfl
    · apply ih
      intro before y after hl
      exact h (x :: before) y after (by rw [hl]; rfl)

theorem add_one_ne_self (b : UInt8) : b + 1 ≠ b := by
  intro h
  have hnat := congrArg UInt8.toNat h
  have hlt := b.toNat_lt
  rw [UInt8.toNat_add] at hnat
  have hone : (1 : UInt8).toNat = 1 := rfl
  omega

/-- The program finds all its segments in memory, whatever the free frames held before,
exactly when no segment has a page in which an earlier one has a byte. -/
theorem segmentsInMemory_iff {vm : Vm} (hok : vm.TreeOk)
    (hno : ∀ v, UserHalf v → vm.NoLarge (indices v)) {image : Memory} {size : UInt32}
    (hvalid : ValidImage image size) (hloads : vm.budget.Loads (programPages image)) :
    (∀ vm', AgreeOff (FreeLow vm.pfa) vm vm' →
      (elf64LoadAndRun vm' image size).1 = .jump (eEntry image) initStackTop) ∧
    ((∀ vm', AgreeOff (FreeLow vm.pfa) vm vm' →
        ∀ ph ∈ loadHeaders image (phdrOffsets image),
          SegmentInMemory (elf64LoadAndRun vm' image size).2.2 image ph) ↔
      (loadHeaders image (phdrOffsets image)).Pairwise fun ph ph' =>
        ∀ i < ph.pMemsz.toNat, pageOf (ph.pVaddr + UInt64.ofNat i) ∉ ph'.pages) := by
  have hstart {vm' : Vm} (hagree : AgreeOff (FreeLow vm.pfa) vm vm') : vm'.TreeOk ∧
      (∀ v, UserHalf v → vm'.NoLarge (indices v)) ∧ vm'.budget.Loads (programPages image) := by
    have hsame := hagree.sameTables hok
    refine ⟨hsame.treeOk hok, fun v hv => hsame.noLarge (length_indices v) (hno v hv), ?_⟩
    rw [hsame.budget]
    exact hloads
  constructor
  · intro vm' hagree
    obtain ⟨hok', hno', hloads'⟩ := hstart hagree
    exact (load_spec hok' hno' hvalid hloads').1
  constructor
  · intro hall
    apply pairwise_of_split
    intro before ph after hsplit ph' hph' i hi hpage
    -- the frame of the lost byte may hold any other byte
    have hagree := fillFree_agree vm (ph.byte image i + 1)
    obtain ⟨hok', hno', hloads'⟩ := hstart hagree
    have hmem := hall _ hagree ph (by simp [hsplit]) i hi
    obtain ⟨f, hfree, hread⟩ := readVirt_segment hok' hno' hvalid hloads' hsplit hi
    rw [if_pos ⟨ph', hph', hpage⟩, hmem, Option.some.injEq] at hread
    have hfill : (fillFree vm (ph.byte image i + 1)).mem
        (f + inPage (ph.pVaddr + UInt64.ofNat i)) = ph.byte image i + 1 := by
      apply if_pos
      rw [pageOf_frame_add hfree.1]
      exact hfree
    rw [hfill] at hread
    exact add_one_ne_self _ hread.symm
  · intro hpairwise vm' hagree ph hph i hi
    obtain ⟨hok', hno', hloads'⟩ := hstart hagree
    obtain ⟨before, after, hsplit⟩ := List.append_of_mem hph
    obtain ⟨f, -, hread⟩ := readVirt_segment hok' hno' hvalid hloads' hsplit hi
    rw [hread, if_neg]
    intro ⟨ph', hph', hpage⟩
    rw [hsplit, List.pairwise_append, List.pairwise_cons] at hpairwise
    exact hpairwise.2.1.1 ph' hph' i hi hpage

/-- A file of 176 bytes with two segments of 16 bytes, at 0x400000 and at `v`. -/
def twoSegments (v : UInt64) : Memory :=
  Memory.ofBytes (headerBytes 2 ++ loadBytes 0 0x400000 16 16 ++ loadBytes 0 v 16 16)

theorem twoSegments_valid {v : UInt64}
    (hheaders : loadHeaders (twoSegments v) (phdrOffsets (twoSegments v)) =
      [⟨1, 0, 0, 0x400000, 16, 16⟩, ⟨1, 0, 0, v, 16, 16⟩])
    (hv : 0x400010 ≤ v.toNat) (hv' : v.toNat + 16 ≤ initStackBottom.toNat) :
    ValidImage (twoSegments v) 176 := by
  refine ⟨by decide, rfl, rfl, ?_, ?_⟩
  · rw [hheaders]
    intro ph hph
    rcases List.mem_pair.mp hph with rfl | rfl
    · exact ⟨by decide, by decide, by decide⟩
    · exact ⟨le_rfl, hv', show 0 + 16 ≤ 176 by norm_num⟩
  · have hlt := initStackBottom.toNat_lt
    have h16 : (16 : UInt64).toNat = 16 := rfl
    have hbase : (0x400000 : UInt64).toNat = 0x400000 := rfl
    rw [hheaders, List.pairwise_pair]
    intro a
    dsimp only
    rw [h16, Memory.inRange_iff (by omega), Memory.inRange_iff (by omega)]
    omega

theorem twoSegments_loads {m : State} (hm : mmInit 0 (some [⟨0x100000, 0x100000, 0⟩]) = some m)
    {v : UInt64} (hlength : (programPages (twoSegments v)).length = 6) :
    (bootVm 0x1000 m.pfa).budget.Loads (programPages (twoSegments v)) := by
  have hcount := boot_count hm
  apply Budget.loads_of_le
  rw [hlength, budget_free]
  exact le_trans (by norm_num) hcount

theorem twoSegments_apart : loadHeaders (twoSegments 0x401000) (phdrOffsets (twoSegments 0x401000)) =
    [⟨1, 0, 0, 0x400000, 16, 16⟩, ⟨1, 0, 0, 0x401000, 16, 16⟩] := by decide +kernel

/-- Two segments in different pages. -/
theorem segmentsInMemory_iff_apart :
    ∃ m, mmInit 0 (some [⟨0x100000, 0x100000, 0⟩]) = some m ∧
      ∀ ph ∈ loadHeaders (twoSegments 0x401000) (phdrOffsets (twoSegments 0x401000)),
        SegmentInMemory (elf64LoadAndRun (bootVm 0x1000 m.pfa) (twoSegments 0x401000) 176).2.2
          (twoSegments 0x401000) ph := by
  obtain ⟨m, hm⟩ := mmInit_isSome 0
    (show bitmapPlacementAddr [⟨0x100000, 0x100000, 0⟩] ≠ 0 by decide)
  obtain ⟨hok, -, hno⟩ := bootVm_ok hm
  have hvalid := twoSegments_valid twoSegments_apart (by decide) (by decide)
  have h := segmentsInMemory_iff hok (fun v _ => hno (indices v)) hvalid
    (twoSegments_loads hm (by decide +kernel))
  refine ⟨m, hm, h.2.mpr ?_ _ ⟨rfl, rfl, fun _ _ => rfl⟩⟩
  rw [twoSegments_apart, List.pairwise_pair]
  decide +kernel

/-- Two segments in one page: the second one takes the page from the first. -/
theorem segment_lost :
    ∃ m, mmInit 0 (some [⟨0x100000, 0x100000, 0⟩]) = some m ∧
      ValidImage (twoSegments 0x400800) 176 ∧
      (elf64LoadAndRun (bootVm 0x1000 m.pfa) (twoSegments 0x400800) 176).1 =
        .jump 0x400000 initStackTop ∧
      ∃ ph ∈ loadHeaders (twoSegments 0x400800) (phdrOffsets (twoSegments 0x400800)),
        ¬ SegmentInMemory (elf64LoadAndRun (bootVm 0x1000 m.pfa) (twoSegments 0x400800) 176).2.2
          (twoSegments 0x400800) ph := by
  obtain ⟨m, hm⟩ := mmInit_isSome 0
    (show bitmapPlacementAddr [⟨0x100000, 0x100000, 0⟩] ≠ 0 by decide)
  obtain ⟨hok, -, hno⟩ := bootVm_ok hm
  have hheaders : loadHeaders (twoSegments 0x400800) (phdrOffsets (twoSegments 0x400800)) =
      [⟨1, 0, 0, 0x400000, 16, 16⟩, ⟨1, 0, 0, 0x400800, 16, 16⟩] := by decide +kernel
  have hvalid := twoSegments_valid hheaders (by decide) (by decide)
  have hloads := twoSegments_loads hm (v := 0x400800) (by decide +kernel)
  have hentry : eEntry (twoSegments 0x400800) = 0x400000 := by decide +kernel
  refine ⟨m, hm, hvalid, ?_, ⟨1, 0, 0, 0x400000, 16, 16⟩, by rw [hheaders]; simp, fun hmem => ?_⟩
  · rw [(load_spec hok (fun v _ => hno (indices v)) hvalid hloads).1, hentry]
  · obtain ⟨f, -, hread⟩ := readVirt_segment hok (fun v _ => hno (indices v)) hvalid hloads
      (hheaders.trans (List.nil_append _).symm) (i := 0) (by decide)
    have hpage : pageOf (0x400000 + UInt64.ofNat 0) ∈
        Phdr.pages ⟨1, 0, 0, 0x400800, 16, 16⟩ := by decide +kernel
    rw [hmem 0 (by decide), if_pos ⟨_, List.mem_singleton_self _, hpage⟩, Option.some.injEq] at hread
    -- the frame is still clear, and the file starts with 0x7F
    have hbyte : Phdr.byte ⟨1, 0, 0, 0x400000, 16, 16⟩ (twoSegments 0x400800) 0 = 0x7F := by
      decide +kernel
    rw [hbyte] at hread
    exact absurd hread (show (0x7F : UInt8) ≠ 0 by decide)

end Rhoudveine.Elf
