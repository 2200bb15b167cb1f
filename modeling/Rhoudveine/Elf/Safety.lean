import Rhoudveine.Elf.Segments

/-!
# What the loader reads, maps and writes

Safety of the log of a load, and the images for which it holds.
-/

namespace Rhoudveine.Elf
open Mm Words

/-! ## Safe logs -/

/-- The upper half of the addresses, as the walk sees it: bit 47 is set. -/
def KernelHalf (v : UInt64) : Prop := 2 ^ 47 ≤ v.toNat % 2 ^ 48

instance (v : UInt64) : Decidable (KernelHalf v) := inferInstanceAs (Decidable (_ ≤ _))

/-- Reads stay in the file, no page of the kernel half is mapped, and each byte written lies
in a user page of `ms`, the pages mapped so far for the current segment. -/
def SafeLog (size : UInt32) : List UInt64 → List Event → Prop
  | _, [] => True
  | ms, .read off n :: log =>
    (∀ k < n, (off + UInt64.ofNat k).toNat < size.toNat) ∧ SafeLog size ms log
  | _, .segment :: log => SafeLog size [] log
  | ms, .map v done :: log =>
    ¬ KernelHalf v ∧ SafeLog size (if done then v :: ms else ms) log
  | ms, .write v n :: log =>
    (∀ k < n, UserHalf (v + UInt64.ofNat k) ∧ pageOf (v + UInt64.ofNat k) ∈ ms) ∧
      SafeLog size ms log

/-- The pages mapped for the current segment after a log. -/
def mapsAfter : List UInt64 → List Event → List UInt64
  | ms, [] => ms
  | _, .segment :: log => mapsAfter [] log
  | ms, .map v done :: log => mapsAfter (if done then v :: ms else ms) log
  | ms, .read _ _ :: log => mapsAfter ms log
  | ms, .write _ _ :: log => mapsAfter ms log

theorem safeLog_append (size : UInt32) (ms : List UInt64) (log log' : List Event) :
    SafeLog size ms (log ++ log') ↔
      SafeLog size ms log ∧ SafeLog size (mapsAfter ms log) log' := by
  induction log generalizing ms with
  | nil => exact (and_iff_right trivial).symm
  | cons e log ih =>
    cases e with
    | read off n => exact (and_congr_right fun _ => ih ms).trans and_assoc.symm
    | segment => exact ih []
    | map v done => exact (and_congr_right fun _ => ih _).trans and_assoc.symm
    | write v n => exact (and_congr_right fun _ => ih ms).trans and_assoc.symm

/-- A safe log has no read outside the file. -/
theorem SafeLog.read_lt {size : UInt32} {ms : List UInt64} {log : List Event}
    (h : SafeLog size ms log) {off : UInt64} {n : ℕ} (hmem : Event.read off n ∈ log) :
    ∀ k < n, (off + UInt64.ofNat k).toNat < size.toNat := by
  obtain ⟨before, after, rfl⟩ := List.append_of_mem hmem
  exact ((safeLog_append _ _ _ _).mp h).2.1

/-! ## Reads and mappings -/

/-- `n` bytes at `off` lie in a file of `size` bytes. -/
def Inside (size : UInt32) (off : UInt64) (n : ℕ) : Prop :=
  n = 0 ∨ off.toNat + n ≤ size.toNat

theorem read_inside_iff {size : UInt32} {off : UInt64} {n : ℕ} (hn : n < 2 ^ 64) :
    (∀ k < n, (off + UInt64.ofNat k).toNat < size.toNat) ↔ Inside size off n := by
  have hoff := off.toNat_lt
  have hsize := size.toNat_lt
  have hadd (k : ℕ) : (off + UInt64.ofNat k).toNat = (off.toNat + k) % 2 ^ 64 := by
    rw [UInt64.toNat_add, UInt64.toNat_ofNat', Nat.add_mod_mod]
  constructor
  · intro h
    by_contra hnot
    unfold Inside at hnot
    push Not at hnot
    obtain ⟨hpos, hgt⟩ := hnot
    by_cases hstart : off.toNat < size.toNat
    · have hlast := h (size.toNat - off.toNat) (by omega)
      rw [hadd] at hlast
      omega
    · have hfirst := h 0 (by omega)
      rw [hadd] at hfirst
      omega
  · intro h k hk
    rw [hadd]
    rcases h with h | h
    · omega
    · omega

theorem mapsAfter_maps (ms : List UInt64) (calls : List (UInt64 × Bool)) (v : UInt64) :
    v ∈ mapsAfter ms (calls.map fun c => Event.map c.1 c.2) ↔ (v, true) ∈ calls ∨ v ∈ ms := by
  induction calls generalizing ms with
  | nil => simp [mapsAfter]
  | cons c calls ih =>
    rw [List.map_cons, mapsAfter, ih, List.mem_cons]
    rcases c with ⟨u, done⟩
    cases done with
    | true =>
      simp only [if_true, List.mem_cons, Prod.mk.injEq, and_true]
      tauto
    | false => simp

theorem safeLog_maps (size : UInt32) (ms : List UInt64) (calls : List (UInt64 × Bool)) :
    SafeLog size ms (calls.map fun c => Event.map c.1 c.2) ↔ ∀ c ∈ calls, ¬ KernelHalf c.1 := by
  induction calls generalizing ms with
  | nil => simp [SafeLog]
  | cons c calls ih => rw [List.map_cons, SafeLog, ih, List.forall_mem_cons]

/-- The page loop only maps. -/
theorem mapLoop_events (vm : Vm) (flags : UInt64) (pages : List UInt64) :
    ∃ calls : List (UInt64 × Bool), (∀ c ∈ calls, c.1 ∈ pages) ∧
      (mapLoop vm flags pages).2.1 = calls.map fun c => Event.map c.1 c.2 := by
  induction pages generalizing vm with
  | nil => exact ⟨[], by simp, rfl⟩
  | cons v pages ih =>
    rw [mapLoop]
    dsimp only
    split
    · exact ⟨[], by simp, rfl⟩
    · generalize mapPage _ _ _ _ = mapped
      obtain ⟨calls, hcalls, hevents⟩ := ih mapped.2
      refine ⟨(v, mapped.1) :: calls, ?_, by rw [hevents]; rfl⟩
      intro c hc
      rcases List.mem_cons.mp hc with rfl | hc
      · exact List.mem_cons_self
      · exact List.mem_cons_of_mem _ (hcalls c hc)

/-- The page loop reaches a page of the kernel half exactly when the budget does. -/
theorem mapLoop_kernelHalf {vm₀ : Vm} (hno : ∀ v, ¬ KernelHalf v → vm₀.NoLarge (indices v))
    {flags : UInt64} (hpres : bit flags 0 = true) (hflags : flags &&& paddrMask = 0)
    (pages : List UInt64) {vm : Vm} {F : List (Fin 512) → Option UInt64}
    {written : UInt64 → Option UInt8} (h : UserSpace vm₀ vm F written) (size : UInt32)
    (ms : List UInt64) :
    SafeLog size ms (mapLoop vm flags pages).2.1 ↔
      ∀ c ∈ (vm.budget.load pages).2.1, ¬ KernelHalf c.1 := by
  induction pages generalizing vm F written ms with
  | nil => simp [mapLoop, Budget.load, SafeLog]
  | cons v pages ih =>
    rw [mapLoop, Budget.load]
    dsimp only
    by_cases hz : (pfaAllocLow vm.pfa).1 = 0
    · rw [if_pos hz, if_pos (budget_zero h.ok hz)]
      simp [SafeLog]
    · rw [if_neg hz, if_neg (budget_alloc h.ok hz).1]
      dsimp only
      rw [SafeLog, List.forall_mem_cons]
      apply and_congr_right
      intro hv
      obtain ⟨done, vm', heq⟩ : ∃ done vm', mapPage { vm with pfa := (pfaAllocLow vm.pfa).2 }
          (pfaAllocLow vm.pfa).1 v flags = (done, vm') := ⟨_, _, rfl⟩
      obtain ⟨hspace, hbudget⟩ := h.map (hno v hv) hpres hflags hz heq
      rw [heq, ← hbudget]
      exact ih hspace _

/-! ## The writes of a segment -/

/-- Every byte the copy of a segment writes satisfies `P`. -/
theorem copySegment_safe (size : UInt32) (ms : List UInt64) (vm : Vm) (image : Memory)
    (ph : Phdr) :
    SafeLog size ms (copySegment vm image ph).1 ↔
      Inside size ph.pOffset ph.pFilesz.toNat ∧
        ∀ a, Memory.InRange ph.pVaddr ph.span a → UserHalf a ∧ pageOf a ∈ ms := by
  have hrange (v : UInt64) {n : ℕ} (hn : n < 2 ^ 64) :
      (∀ k < n, UserHalf (v + UInt64.ofNat k) ∧ pageOf (v + UInt64.ofNat k) ∈ ms) ↔
        ∀ a, Memory.InRange v n a → UserHalf a ∧ pageOf a ∈ ms := by
    constructor
    · intro h a ha
      have hk := h _ ha
      rw [UInt64.ofNat_toNat, UInt64.add_comm, UInt64.sub_add_cancel] at hk
      exact hk
    · intro h k hk
      apply h
      unfold Memory.InRange
      rw [UInt64.add_comm, UInt64.add_sub_cancel, UInt64.toNat_ofNat']
      omega
  have hfile := ph.pFilesz.toNat_lt
  have hread : SafeLog size ms (.read ph.pOffset ph.pFilesz.toNat ::
      [.write ph.pVaddr ph.pFilesz.toNat]) ↔
      Inside size ph.pOffset ph.pFilesz.toNat ∧
        ∀ a, Memory.InRange ph.pVaddr ph.pFilesz.toNat a → UserHalf a ∧ pageOf a ∈ ms := by
    rw [SafeLog, SafeLog, read_inside_iff hfile, hrange _ hfile, SafeLog, and_true]
  unfold copySegment
  dsimp only
  by_cases hgt : ph.pMemsz > ph.pFilesz
  · rw [if_pos hgt, safeLog_append, hread]
    have hmem := (ph.pMemsz - ph.pFilesz).toNat_lt
    rw [mapsAfter, mapsAfter, mapsAfter, SafeLog, SafeLog, and_true, hrange _ hmem, and_assoc]
    apply and_congr_right
    intro
    -- the bytes of the file and the zeros behind them are the whole span
    have hlt := UInt64.lt_iff_toNat_lt.mp hgt
    have hspan : ph.span = ph.pMemsz.toNat := max_eq_right hlt.le
    rw [hspan]
    constructor
    · intro ⟨hlow, hhigh⟩ a ha
      by_cases hin : a - ph.pVaddr < ph.pFilesz
      · exact hlow a (UInt64.lt_iff_toNat_lt.mp hin)
      · exact hhigh a ((inRange_tail hgt).mpr ⟨hin, UInt64.lt_iff_toNat_lt.mpr ha⟩)
    · intro hall
      constructor
      · intro a ha
        exact hall a (lt_trans ha hlt)
      · intro a ha
        exact hall a (UInt64.lt_iff_toNat_lt.mp ((inRange_tail hgt).mp ha).2)
  · have hle := UInt64.le_iff_toNat_le.mp (UInt64.not_lt.mp hgt)
    have hspan : ph.span = ph.pFilesz.toNat := max_eq_left hle
    rw [if_neg hgt, hread, hspan]

/-- Each page of a segment that writes anything holds a written byte. -/
theorem exists_byte_of_mem_pages {ph : Phdr} (hpos : 0 < ph.span)
    (hspan : ph.pVaddr.toNat + ph.span ≤ 2 ^ 47) {v : UInt64} (hv : v ∈ ph.pages) :
    ∃ a, Memory.InRange ph.pVaddr ph.span a ∧ pageOf a = v := by
  obtain ⟨hal, hge, hlt⟩ := Phdr.mem_pages.mp hv
  have hmem : ph.pMemsz.toNat ≤ ph.span := le_max_right _ _
  rw [Phdr.toNat_pageStart] at hge
  rw [Phdr.toNat_pageEnd (by omega)] at hlt
  by_cases hfirst : v.toNat < ph.pVaddr.toNat
  · refine ⟨ph.pVaddr, ?_, ?_⟩
    · rw [Memory.inRange_iff (by omega)]
      omega
    · apply UInt64.toNat_inj.mp
      rw [toNat_pageOf]
      omega
  · refine ⟨v, ?_, ?_⟩
    · rw [Memory.inRange_iff (by omega)]
      omega
    · apply UInt64.toNat_inj.mp
      rw [toNat_pageOf]
      omega

/-- The copy stays in the pages that were mapped for it exactly when the writes fit. -/
theorem writesFit_iff {b : Budget} {ph : Phdr} (hload : (b.load ph.pages).1 = true)
    {ms : List UInt64} (hms : ∀ v, v ∈ ms ↔ (v, true) ∈ (b.load ph.pages).2.1) :
    (∀ a, Memory.InRange ph.pVaddr ph.span a → UserHalf a ∧ pageOf a ∈ ms) ↔ WritesFit b ph := by
  have hkeys := Budget.load_keys hload
  have hstart := ph.pVaddr.toNat_lt
  constructor
  · intro h hpos
    have huser : ph.pVaddr.toNat + ph.span ≤ 2 ^ 47 := by
      by_contra hgt
      -- the first byte behind the user half is in the span
      have hfirst := (h ph.pVaddr (by unfold Memory.InRange; simpa using hpos)).1
      unfold UserHalf at hfirst
      have hx : (ph.pVaddr + UInt64.ofNat (2 ^ 47 - ph.pVaddr.toNat)).toNat = 2 ^ 47 := by
        rw [UInt64.toNat_add, UInt64.toNat_ofNat']
        omega
      have hbyte := (h (ph.pVaddr + UInt64.ofNat (2 ^ 47 - ph.pVaddr.toNat)) (by
        unfold Memory.InRange
        rw [UInt64.add_comm, UInt64.add_sub_cancel, UInt64.toNat_ofNat']
        omega)).1
      unfold UserHalf at hbyte
      omega
    refine ⟨huser, ?_, ?_⟩
    · -- the last byte is in one of the pages
      have hx : (ph.pVaddr + UInt64.ofNat (ph.span - 1)).toNat = ph.pVaddr.toNat + ph.span - 1 := by
        rw [UInt64.toNat_add, UInt64.toNat_ofNat']
        omega
      have hlast := (h (ph.pVaddr + UInt64.ofNat (ph.span - 1)) (by
        rw [Memory.inRange_iff (by omega), hx]
        omega)).2
      have hmem := Budget.mem_of_mem_load ((hms _).mp hlast)
      obtain ⟨-, -, hlt⟩ := Phdr.mem_pages.mp hmem
      have hend := ph.pageEnd_aligned
      rw [toNat_pageOf, hx] at hlt
      omega
    · intro c hc
      obtain ⟨a, ha, hac⟩ := exists_byte_of_mem_pages hpos huser (Budget.mem_of_mem_load hc)
      have hdone := (hms _).mp (h a ha).2
      have hnodup : ((b.load ph.pages).2.1.map Prod.fst).Nodup := by
        rw [hkeys]
        exact ph.pages_nodup
      have hinj := List.inj_on_of_nodup_map hnodup hdone hc hac
      rw [← hinj]
  · intro hfit a ha
    obtain ⟨huser, hend, hdone⟩ := hfit (Nat.zero_lt_of_lt ha)
    constructor
    · rw [Memory.inRange_iff (by omega)] at ha
      unfold UserHalf
      omega
    · have hmem := pageOf_mem_pages hend ha
      rw [← hkeys] at hmem
      obtain ⟨c, hc, hca⟩ := List.mem_map.mp hmem
      rw [hms, ← hca, ← hdone c hc]
      exact hc

/-! ## The images that are loaded safely -/

/-- The pages and bytes of one segment, with the frames of `b`. -/
def SegmentFits (size : UInt32) (b : Budget) (ph : Phdr) : Prop :=
  (∀ c ∈ (b.load ph.pages).2.1, ¬ KernelHalf c.1) ∧
    ((b.load ph.pages).1 = true →
      Inside size ph.pOffset ph.pFilesz.toNat ∧ WritesFit b ph)

/-- The headers of the loop lie in the file as far as they are read, and the segments fit up
to the first one that is refused or finds no frame. -/
def LoadFits (image : Memory) (size : UInt32) : Budget → List UInt64 → Prop
  | _, [] => True
  | b, off :: offs =>
    Inside size off 4 ∧
      if (phdrAt image off).pType ≠ ptLoad then LoadFits image size b offs
      else Inside size off 40 ∧
        ((phdrAt image off).pOffset + (phdrAt image off).pFilesz ≤ size.toUInt64 →
          Inside size off 48 ∧ SegmentFits size b (phdrAt image off) ∧
            ((b.load (phdrAt image off).pages).1 = true →
              LoadFits image size (b.load (phdrAt image off).pages).2.2 offs))

theorem safeLog_reads (size : UInt32) (ms : List UInt64) (off : UInt64) :
    (SafeLog size ms (readsType off) ↔ Inside size off 4) ∧
      (SafeLog size ms (readsType off ++ readsFile off) ↔ Inside size off 40) ∧
      (SafeLog size ms (readsType off ++ readsFile off ++ readsMemory off ++ [.segment]) ↔
        Inside size off 48) := by
  have hsize := size.toNat_lt
  -- a field that lies off the header start is inside iff its last byte is
  have hfield {d : UInt64} {n : ℕ} (hn : n < 2 ^ 64) (hpos : 0 < n) (hd : d.toNat < 64)
      (hin : off.toNat < size.toNat) :
      (∀ k < n, (off + d + UInt64.ofNat k).toNat < size.toNat) ↔
        off.toNat + d.toNat + n ≤ size.toNat := by
    rw [read_inside_iff hn, Inside, UInt64.toNat_add]
    omega
  have htype : SafeLog size ms (readsType off) ↔ Inside size off 4 := by
    rw [readsType, SafeLog, read_inside_iff (by norm_num), SafeLog, and_true]
  have hfile : SafeLog size ms (readsType off ++ readsFile off) ↔ Inside size off 40 := by
    rw [safeLog_append, htype]
    unfold Inside
    constructor
    · intro ⟨hin, h⟩
      rw [readsFile, SafeLog, SafeLog, hfield (by norm_num) (by norm_num) (by decide) (by omega),
        hfield (by norm_num) (by norm_num) (by decide) (by omega)] at h
      obtain ⟨-, h, -⟩ := h
      exact Or.inr h
    · intro h
      have h8 : (8 : UInt64).toNat = 8 := rfl
      have h32 : (32 : UInt64).toNat = 32 := rfl
      rw [readsFile, SafeLog, SafeLog, hfield (by norm_num) (by norm_num) (by decide) (by omega),
        hfield (by norm_num) (by norm_num) (by decide) (by omega), SafeLog]
      exact ⟨by omega, by omega, by omega, trivial⟩
  refine ⟨htype, hfile, ?_⟩
  rw [List.append_assoc, safeLog_append, hfile]
  unfold Inside
  constructor
  · intro ⟨hin, h⟩
    rw [readsMemory, List.cons_append, List.cons_append, List.cons_append, SafeLog, SafeLog,
      SafeLog, hfield (by norm_num) (by norm_num) (by decide) (by omega),
      hfield (by norm_num) (by norm_num) (by decide) (by omega),
      hfield (by norm_num) (by norm_num) (by decide) (by omega)] at h
    obtain ⟨-, -, h, -⟩ := h
    exact Or.inr h
  · intro h
    have h4 : (4 : UInt64).toNat = 4 := rfl
    have h16 : (16 : UInt64).toNat = 16 := rfl
    have h40 : (40 : UInt64).toNat = 40 := rfl
    rw [readsMemory, List.cons_append, List.cons_append, List.cons_append, SafeLog, SafeLog,
      SafeLog, hfield (by norm_num) (by norm_num) (by decide) (by omega),
      hfield (by norm_num) (by norm_num) (by decide) (by omega),
      hfield (by norm_num) (by norm_num) (by decide) (by omega), List.nil_append, SafeLog, SafeLog]
    exact ⟨by omega, by omega, by omega, by omega, trivial⟩

theorem safeLog_header (size : UInt32) (ms : List UInt64) (off : UInt64) (log : List Event) :
    SafeLog size ms (readsType off ++ readsFile off ++ readsMemory off ++ [.segment] ++ log) ↔
      Inside size off 48 ∧ SafeLog size [] log := by
  rw [safeLog_append, (safeLog_reads size ms off).2.2]
  exact Iff.rfl

/-- Whether the log of the headers `offs` is safe depends on the budget only. -/
theorem loadSegments_safe {vm₀ : Vm} (hno : ∀ v, ¬ KernelHalf v → vm₀.NoLarge (indices v))
    (image : Memory) (size : UInt32) (offs : List UInt64) {vm : Vm}
    {F : List (Fin 512) → Option UInt64} {written : UInt64 → Option UInt8}
    (h : UserSpace vm₀ vm F written) (ms : List UInt64) :
    SafeLog size ms (loadSegments vm image size offs).2.1 ↔
      LoadFits image size vm.budget offs := by
  induction offs generalizing vm F written ms with
  | nil => exact Iff.rfl
  | cons off offs ih =>
    have hreads := safeLog_reads size ms off
    rw [loadSegments, loadSegment, LoadFits]
    dsimp only
    generalize phdrAt image off = ph
    by_cases htype : ph.pType ≠ ptLoad
    · rw [if_pos htype, if_pos htype]
      dsimp only
      rw [safeLog_append, hreads.1, ih h]
    · rw [if_neg htype, if_neg htype]
      by_cases hbound : ph.pOffset + ph.pFilesz > size.toUInt64
      · rw [if_pos hbound]
        dsimp only
        rw [hreads.2.1]
        have hnot := UInt64.not_le.mpr hbound
        unfold Inside
        constructor
        · intro hin
          exact ⟨by omega, by omega, fun hle => absurd hle hnot⟩
        · exact fun hin => hin.2.1
      · rw [if_neg hbound]
        have hle := UInt64.not_lt.mp hbound
        have hkernel := mapLoop_kernelHalf hno (segFlags_present ph) (segFlags_mask ph) ph.pages h
          size []
        have hinside (P : Prop) : (Inside size off 4 ∧ Inside size off 40 ∧
            (ph.pOffset + ph.pFilesz ≤ size.toUInt64 → Inside size off 48 ∧ P)) ↔
            Inside size off 48 ∧ P := by
          unfold Inside
          constructor
          · exact fun hin => hin.2.2 hle
          · exact fun hin => ⟨by omega, by omega, fun _ => hin⟩
        rw [hinside, SegmentFits]
        by_cases hsafe : ∀ c ∈ (vm.budget.load ph.pages).2.1, ¬ KernelHalf c.1
        · have hsegment := hkernel.mpr hsafe
          have hnoload (c) (hc : c ∈ (vm.budget.load ph.pages).2.1) := hno _ (hsafe c hc)
          obtain ⟨hload, hevents, -⟩ := mapLoop_spec (segFlags_present ph) (segFlags_mask ph)
            ph.pages h hnoload
          rw [hload]
          by_cases hframes : (vm.budget.load ph.pages).1 = true
          · -- the segment is mapped and copied
            rw [if_pos hframes]
            dsimp only
            rw [List.append_assoc, List.append_assoc, safeLog_header, safeLog_append,
              safeLog_append, copySegment_safe, writesFit_iff hframes (by
                intro v
                rw [hevents, mapsAfter_maps]
                simp)]
            apply and_congr_right
            intro
            by_cases hfit : WritesFit vm.budget ph
            · obtain ⟨F', -, hspace, -, hbudget⟩ := segment_spec image ph h hnoload hframes hfit
              rw [ih hspace, hbudget, and_iff_right hsegment, and_iff_right hsafe,
                imp_iff_right hframes, imp_iff_right hframes]
            · exact iff_of_false (fun hlog => hfit hlog.2.1.2) fun h => hfit (h.1.2 hframes).2
          · -- no frame is left for one of the pages
            rw [if_neg hframes]
            dsimp only
            rw [safeLog_header]
            apply and_congr_right
            intro
            exact iff_of_true hsegment
              ⟨⟨hsafe, fun h => absurd h hframes⟩, fun h => absurd h hframes⟩
        · -- a page of the kernel half is mapped
          have hnot := fun hlog => hsafe (hkernel.mp hlog)
          by_cases hmapped : (mapLoop vm ph.segFlags ph.pages).1 = true
          · rw [if_pos hmapped]
            dsimp only
            rw [List.append_assoc, List.append_assoc, safeLog_header, safeLog_append]
            exact iff_of_false (fun hlog => hnot hlog.2.1) fun h => hsafe h.2.1.1
          · rw [if_neg hmapped]
            dsimp only
            rw [safeLog_header]
            exact iff_of_false (fun hlog => hnot hlog.2) fun h => hsafe h.2.1.1

/-- Every log of the loader is safe exactly for the images whose headers and segments fit. -/
theorem load_safe_iff {vm : Vm} (hok : vm.TreeOk)
    (hno : ∀ v, ¬ KernelHalf v → vm.NoLarge (indices v)) (image : Memory) (size : UInt32) :
    SafeLog size [] (elf64LoadAndRun vm image size).2.1 ↔
      (ehdrSize ≤ size → validMagic image = true → image 4 = 2 →
        LoadFits image size vm.budget (phdrOffsets image)) := by
  have hsegments := loadSegments_safe hno image size (phdrOffsets image)
    (UserSpace.start hok fun _ => none) []
  have hstack (vm : Vm) : SafeLog size [] (mapLoop vm stackFlags stackPages).2.1 := by
    obtain ⟨calls, hcalls, hevents⟩ := mapLoop_events vm stackFlags stackPages
    rw [hevents, safeLog_maps]
    intro c hc
    obtain ⟨i, hi, hv⟩ := List.mem_map.mp (hcalls c hc)
    have hi' : i < 4 := List.mem_range.mp hi
    rw [← hv]
    unfold KernelHalf
    interval_cases i <;> decide
  have hhead (hsize : ehdrSize ≤ size) (log : List Event) :
      SafeLog size [] (.read 0 64 :: log) ↔ SafeLog size [] log := by
    rw [SafeLog, read_inside_iff (by norm_num)]
    apply and_iff_right
    exact Or.inr (UInt32.le_iff_toNat_le.mp hsize)
  rw [elf64LoadAndRun]
  by_cases hsize : size < ehdrSize
  · rw [if_pos hsize]
    exact iff_of_true trivial fun h => absurd h (UInt32.not_le.mpr hsize)
  rw [if_neg hsize]
  replace hsize := UInt32.not_lt.mp hsize
  by_cases hmagic : validMagic image = true
  swap
  · rw [if_pos (by simpa using hmagic)]
    exact iff_of_true ((hhead hsize []).mpr trivial) fun _ h => absurd h hmagic
  rw [if_neg (by simpa using hmagic)]
  by_cases hclass : image 4 = 2
  swap
  · rw [if_pos hclass]
    exact iff_of_true ((hhead hsize []).mpr trivial) fun _ _ h => absurd h hclass
  rw [if_neg (not_not.mpr hclass), imp_iff_right hsize, imp_iff_right hmagic,
    imp_iff_right hclass, ← hsegments]
  dsimp only
  cases hcode : (loadSegments vm image size (phdrOffsets image)).1 with
  | some code => exact hhead hsize _
  | none =>
    have hlog (log : List Event) : SafeLog size []
        (.read 0 64 :: (loadSegments vm image size (phdrOffsets image)).2.1 ++ .segment :: log) ↔
        SafeLog size [] (loadSegments vm image size (phdrOffsets image)).2.1 ∧
          SafeLog size [] log := by
      rw [List.cons_append, hhead hsize, safeLog_append]
      exact Iff.rfl
    dsimp only
    split
    · simp only [hlog, hstack, and_true]
    · simp only [hlog, hstack, and_true]

/-- A file without program headers. -/
theorem load_safe_iff_header :
    ∃ m, mmInit 0 (some [⟨0x100000, 0x100000, 0⟩]) = some m ∧
      SafeLog 64 [] (elf64LoadAndRun (bootVm 0x1000 m.pfa) (Memory.ofBytes (headerBytes 0)) 64).2.1 := by
  obtain ⟨m, hm⟩ := mmInit_isSome 0
    (show bitmapPlacementAddr [⟨0x100000, 0x100000, 0⟩] ≠ 0 by decide)
  obtain ⟨hok, -, hno⟩ := bootVm_ok hm
  refine ⟨m, hm, (load_safe_iff hok (fun v _ => hno (indices v)) _ 64).mpr fun _ _ _ => ?_⟩
  have hoffs : phdrOffsets (Memory.ofBytes (headerBytes 0)) = [] := by decide +kernel
  rw [hoffs]
  trivial

/-- `p_offset + p_filesz` wraps to 8, and the copy starts before the file. -/
theorem read_before_file :
    ∃ m, mmInit 0 (some [⟨0x100000, 0x100000, 0⟩]) = some m ∧
      ¬ SafeLog 120 [] (elf64LoadAndRun (bootVm 0x1000 m.pfa)
        (Memory.ofBytes (headerBytes 1 ++ loadBytes 0xFFFFFFFFFFFFFFF8 0 16 0)) 120).2.1 := by
  obtain ⟨m, hm⟩ := mmInit_isSome 0
    (show bitmapPlacementAddr [⟨0x100000, 0x100000, 0⟩] ≠ 0 by decide)
  refine ⟨m, hm, fun hsafe => ?_⟩
  generalize bootVm 0x1000 m.pfa = vm at hsafe
  have hmem : Event.read 0xFFFFFFFFFFFFFFF8 16 ∈ (elf64LoadAndRun vm
      (Memory.ofBytes (headerBytes 1 ++ loadBytes 0xFFFFFFFFFFFFFFF8 0 16 0)) 120).2.1 := by
    generalize himage : Memory.ofBytes (headerBytes 1 ++ loadBytes 0xFFFFFFFFFFFFFFF8 0 16 0) = image
    have hmagic : validMagic image = true := by
      rw [← himage]
      decide +kernel
    have hclass : image 4 = 2 := by
      rw [← himage]
      decide +kernel
    have hoffs : phdrOffsets image = [64] := by
      rw [← himage]
      decide +kernel
    have hphdr : phdrAt image 64 = ⟨1, 0, 0xFFFFFFFFFFFFFFF8, 0, 16, 0⟩ := by
      rw [← himage]
      decide +kernel
    have hpages : Phdr.pages ⟨1, 0, 0xFFFFFFFFFFFFFFF8, 0, 16, 0⟩ = [] := by decide +kernel
    have hread : Event.read 0xFFFFFFFFFFFFFFF8 16 ∈ (loadSegments vm image 120 [64]).2.1 := by
      rw [loadSegments, loadSegment, hphdr]
      dsimp only
      rw [if_neg (by decide), if_neg (by decide), hpages, mapLoop]
      simp [copySegment]
    rw [elf64LoadAndRun, if_neg (by decide), if_neg (by simp [hmagic]),
      if_neg (not_not.mpr hclass), hoffs]
    dsimp only
    split
    · exact List.mem_cons_of_mem _ hread
    · split
      · exact List.mem_cons_of_mem _ (List.mem_append_left _ hread)
      · exact List.mem_cons_of_mem _ (List.mem_append_left _ hread)
  exact absurd (hsafe.read_lt hmem 0 (by norm_num)) (by decide)

end Rhoudveine.Elf
