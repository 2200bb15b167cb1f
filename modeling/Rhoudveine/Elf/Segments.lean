import Rhoudveine.Elf.UserSpace

/-!
# Loading one segment

The page loop of the loader follows the budget, and the copy of a segment stores the bytes
of the file and the zeros behind them.
-/

namespace Rhoudveine.Elf
open Mm Words

/-! ## The page loop -/

/-- One of the completed calls was for the page with the indices `w`. -/
def doneAt (calls : List (UInt64 × Bool)) (w : List (Fin 512)) : Bool :=
  calls.any fun c => c.2 && decide (indices c.1 = w)

theorem doneAt_cons (c : UInt64 × Bool) (calls : List (UInt64 × Bool)) (w : List (Fin 512)) :
    doneAt (c :: calls) w = ((c.2 && decide (indices c.1 = w)) || doneAt calls w) := rfl

theorem doneAt_of_mem {calls : List (UInt64 × Bool)} {v : UInt64} (h : (v, true) ∈ calls) :
    doneAt calls (indices v) = true :=
  List.any_eq_true.mpr ⟨_, h, by simp⟩

/-- What the loader did to the pages it asked for. -/
structure Mapped (vm₀ vm : Vm) (F : List (Fin 512) → Option UInt64)
    (written : UInt64 → Option UInt8) (calls : List (UInt64 × Bool))
    (F' : List (Fin 512) → Option UInt64) : Prop where
  space : UserSpace vm₀ vm F' fun a => if doneAt calls (indices a) then none else written a
  done : ∀ w, doneAt calls w = true → ∃ f, F' w = some f
  other : ∀ w, doneAt calls w = false → F' w = F w

theorem UserSpace.mapped_nil {vm₀ vm : Vm} {F : List (Fin 512) → Option UInt64}
    {written : UInt64 → Option UInt8} (h : UserSpace vm₀ vm F written) :
    Mapped vm₀ vm F written [] F where
  space := by simpa [doneAt] using h
  done w hw := by simp [doneAt] at hw
  other _ _ := rfl

/-- The page loop takes its frames from the budget and gives them to the pages. -/
theorem mapLoop_spec {vm₀ : Vm} {flags : UInt64} (hpres : bit flags 0 = true)
    (hflags : flags &&& paddrMask = 0) (pages : List UInt64) {vm : Vm}
    {F : List (Fin 512) → Option UInt64} {written : UInt64 → Option UInt8}
    (h : UserSpace vm₀ vm F written)
    (hno : ∀ c ∈ (vm.budget.load pages).2.1, vm₀.NoLarge (indices c.1)) :
    (mapLoop vm flags pages).1 = (vm.budget.load pages).1 ∧
      (mapLoop vm flags pages).2.1 =
        (vm.budget.load pages).2.1.map (fun c => Event.map c.1 c.2) ∧
      (mapLoop vm flags pages).2.2.budget = (vm.budget.load pages).2.2 ∧
      ∃ F', Mapped vm₀ (mapLoop vm flags pages).2.2 F written (vm.budget.load pages).2.1 F' := by
  induction pages generalizing vm F written with
  | nil => exact ⟨rfl, rfl, rfl, F, h.mapped_nil⟩
  | cons v pages ih =>
    by_cases hz : (pfaAllocLow vm.pfa).1 = 0
    · have hzero := budget_zero h.ok hz
      rw [mapLoop, Budget.load]
      dsimp only
      rw [if_pos hz, if_pos hzero, pfaAllocLow_of_zero h.ok.wf hz]
      exact ⟨rfl, rfl, rfl, F, h.mapped_nil⟩
    · -- one page is mapped; the loop's budget is the one the mapping leaves
      have hpos := (budget_alloc h.ok hz).1
      obtain ⟨done, vm', heq⟩ : ∃ done vm', mapPage { vm with pfa := (pfaAllocLow vm.pfa).2 }
          (pfaAllocLow vm.pfa).1 v flags = (done, vm') := ⟨_, _, rfl⟩
      have hload : vm.budget.load (v :: pages) =
          ((vm.budget.spend.mapPage (indices v)).2.load pages |>.1,
            (v, (vm.budget.spend.mapPage (indices v)).1) ::
              ((vm.budget.spend.mapPage (indices v)).2.load pages).2.1,
            ((vm.budget.spend.mapPage (indices v)).2.load pages).2.2) := by
        rw [Budget.load, if_neg hpos]
      rw [hload] at hno ⊢
      obtain ⟨hspace, hbudget⟩ := h.map (hno _ List.mem_cons_self) hpres hflags hz heq
      rw [← hbudget] at hno ⊢
      dsimp only at hno ⊢
      obtain ⟨hok, hevents, hbudget', F', hmapped⟩ :=
        ih hspace fun c hc => hno c (List.mem_cons_of_mem _ hc)
      have hloop : mapLoop vm flags (v :: pages) = ((mapLoop vm' flags pages).1,
          .map v done :: (mapLoop vm' flags pages).2.1, (mapLoop vm' flags pages).2.2) := by
        rw [mapLoop]
        dsimp only
        rw [if_neg hz, heq]
      rw [hloop]
      refine ⟨hok, by rw [hevents]; rfl, hbudget', F', ⟨?_, ?_, ?_⟩⟩
      · convert hmapped.space using 2 with a
        rw [doneAt_cons]
        by_cases hrest : doneAt (vm'.budget.load pages).2.1 (indices a) = true
        · -- a later call for the page hides its bytes whether this one mapped it or not
          rw [if_pos (by rw [hrest, Bool.or_true]), if_pos hrest]
        · rw [if_neg hrest, Bool.eq_false_iff.mpr hrest, Bool.or_false]
          by_cases ha : indices v = indices a
          · cases done <;> simp [ha]
          · have ha' : indices a ≠ indices v := fun h => ha h.symm
            simp [ha, ha']
      · intro w hw
        rw [doneAt_cons, Bool.or_eq_true] at hw
        by_cases hrest : doneAt (vm'.budget.load pages).2.1 w = true
        · exact hmapped.done w hrest
        · obtain ⟨hdone, hvw⟩ := Bool.and_eq_true_iff.mp (hw.resolve_right hrest)
          refine ⟨(pfaAllocLow vm.pfa).1, ?_⟩
          dsimp only at hdone
          rw [hmapped.other w (Bool.eq_false_iff.mpr hrest), hdone, if_pos rfl,
            ← of_decide_eq_true hvw, Function.update_self]
      · intro w hw
        rw [doneAt_cons, Bool.or_eq_false_iff] at hw
        rw [hmapped.other w hw.2]
        cases done with
        | false => rfl
        | true =>
          rw [Bool.true_and, decide_eq_false_iff_not] at hw
          rw [if_pos rfl, Function.update_of_ne fun h => hw.1 h.symm]

/-! ## The copy -/

theorem SameTables.trans {vm vm' vm'' : Vm} (h : SameTables vm vm') (h' : SameTables vm' vm'') :
    SameTables vm vm'' where
  cr3 := h'.cr3.trans h.cr3
  pfa := h'.pfa.trans h.pfa
  entry k hk j := (h'.entry k ((h.isTable k).mpr hk) j).trans (h.entry k hk j)

/-- Bytes copied to mapped addresses. -/
theorem elfMemcpy_spec {vm₀ : Vm} (image : Memory) {n : ℕ} (hn : n ≤ 2 ^ 64) (dst src : UInt64)
    {vm : Vm} {F : List (Fin 512) → Option UInt64} {written : UInt64 → Option UInt8}
    (h : UserSpace vm₀ vm F written)
    (hdst : ∀ a, Memory.InRange dst n a → UserHalf a ∧ ∃ f, F (indices a) = some f) :
    (UserSpace vm₀ (elfMemcpy vm dst image src n) F fun a =>
        if (a - dst).toNat < n then some (image (src + (a - dst))) else written a) ∧
      SameTables vm (elfMemcpy vm dst image src n) := by
  induction n generalizing dst src vm written with
  | zero => exact ⟨h, ⟨rfl, rfl, fun _ _ _ => rfl⟩⟩
  | succ n ih =>
    have hself : Memory.InRange dst (n + 1) dst := Memory.inRange_succ.mpr (Or.inl rfl)
    obtain ⟨hhalf, f, hf⟩ := hdst dst hself
    obtain ⟨hstore, hsame⟩ := h.store hhalf hf (image src)
    have hfirst : ¬ Memory.InRange (dst + 1) n dst := Memory.not_inRange_self (by omega)
    obtain ⟨hspace, hsame'⟩ := ih (by omega) (dst + 1) (src + 1) hstore fun a ha => by
      apply hdst a
      apply Memory.inRange_succ.mpr
      right
      refine ⟨ha, ?_⟩
      rintro rfl
      exact hfirst ha
    refine ⟨?_, hsame.trans hsame'⟩
    rw [elfMemcpy]
    convert hspace using 2 with a
    have hiff := Memory.inRange_succ (a := dst) (x := a) (n := n)
    unfold Memory.InRange at hiff hfirst
    by_cases ha : a = dst
    · subst ha
      rw [if_neg hfirst, Function.update_self, UInt64.sub_self, if_pos (by simp), UInt64.add_zero]
    · rw [Function.update_of_ne ha]
      by_cases hin : (a - (dst + 1)).toNat < n
      · rw [if_pos hin, if_pos (hiff.mpr (Or.inr ⟨hin, ha⟩))]
        have hsrc : src + 1 + (a - (dst + 1)) = src + (a - dst) := by grind
        rw [hsrc]
      · rw [if_neg hin, if_neg fun h => (hiff.mp h).elim ha fun h => hin h.1]

theorem elfMemset_eq (vm : Vm) (dst src : UInt64) (c : UInt8) (n : ℕ) :
    elfMemset vm dst c n = elfMemcpy vm dst (fun _ => c) src n := by
  induction n generalizing vm dst src with
  | zero => rfl
  | succ n ih => rw [elfMemset, elfMemcpy, ih _ _ (src + 1)]

namespace Phdr

/-- The number of bytes written for a segment. -/
def span (ph : Phdr) : ℕ := max ph.pFilesz.toNat ph.pMemsz.toNat

/-- The byte a segment puts at `a`. -/
def byteAt (ph : Phdr) (image : Memory) (a : UInt64) : Option UInt8 :=
  if a - ph.pVaddr < ph.pFilesz then some (image (ph.pOffset + (a - ph.pVaddr)))
  else if a - ph.pVaddr < ph.pMemsz then some 0
  else none

theorem pageStart_aligned (ph : Phdr) : ph.pageStart.toNat % 4096 = 0 := pageOf_aligned _

theorem pageEnd_aligned (ph : Phdr) : ph.pageEnd.toNat % 4096 = 0 := pageOf_aligned _

theorem toNat_pageStart (ph : Phdr) : ph.pageStart.toNat = ph.pVaddr.toNat / 4096 * 4096 :=
  toNat_pageOf _

/-- The end of the pages when `p_vaddr + p_memsz` does not wrap. -/
theorem toNat_pageEnd {ph : Phdr} (h : ph.pVaddr.toNat + ph.pMemsz.toNat + 0xFFF < 2 ^ 64) :
    ph.pageEnd.toNat = (ph.pVaddr.toNat + ph.pMemsz.toNat + 0xFFF) / 4096 * 4096 := by
  have hsum : (ph.pVaddr + ph.pMemsz + 0xFFF).toNat =
      ph.pVaddr.toNat + ph.pMemsz.toNat + 0xFFF := by
    rw [UInt64.toNat_add, UInt64.toNat_add]
    have : (0xFFF : UInt64).toNat = 0xFFF := rfl
    omega
  unfold pageEnd
  rw [toNat_pageOf, hsum]

theorem toNat_page (ph : Phdr) {i : ℕ} (hi : i < (ph.pageEnd.toNat - ph.pageStart.toNat) / 4096) :
    (ph.pageStart + UInt64.ofNat i * pageSize).toNat = ph.pageStart.toNat + i * 4096 := by
  have hsize : pageSize.toNat = 4096 := rfl
  have := ph.pageEnd.toNat_lt
  have hi' : (UInt64.ofNat i).toNat = i := by
    rw [UInt64.toNat_ofNat']
    omega
  rw [UInt64.toNat_add, UInt64.toNat_mul, hi', hsize]
  omega

theorem mem_pages {ph : Phdr} {v : UInt64} :
    v ∈ ph.pages ↔
      v.toNat % 4096 = 0 ∧ ph.pageStart.toNat ≤ v.toNat ∧ v.toNat < ph.pageEnd.toNat := by
  have hstart := ph.pageStart_aligned
  have hend := ph.pageEnd_aligned
  unfold pages
  rw [List.mem_map]
  constructor
  · intro ⟨i, hi, hv⟩
    have hi' := List.mem_range.mp hi
    rw [← hv, ph.toNat_page hi']
    omega
  · intro ⟨hal, hge, hlt⟩
    have hi : (v.toNat - ph.pageStart.toNat) / 4096 <
        (ph.pageEnd.toNat - ph.pageStart.toNat) / 4096 := by omega
    refine ⟨_, List.mem_range.mpr hi, ?_⟩
    apply UInt64.toNat_inj.mp
    rw [ph.toNat_page hi]
    omega

theorem pages_nodup (ph : Phdr) : ph.pages.Nodup := by
  apply List.Nodup.map_on _ List.nodup_range
  intro i hi j hj hij
  have h := congrArg UInt64.toNat hij
  rw [ph.toNat_page (List.mem_range.mp hi), ph.toNat_page (List.mem_range.mp hj)] at h
  omega

end Phdr

theorem inRange_tail {v a filesz memsz : UInt64} (h : filesz < memsz) :
    (a - (v + filesz)).toNat < (memsz - filesz).toNat ↔
      ¬ a - v < filesz ∧ a - v < memsz := by
  rw [UInt64.lt_iff_toNat_lt] at h ⊢
  rw [UInt64.lt_iff_toNat_lt]
  have hsub : a - (v + filesz) = (a - v) - filesz := by grind
  have := memsz.toNat_lt
  have := (a - v).toNat_lt
  rw [hsub, UInt64.toNat_sub_of_le _ _ (UInt64.le_iff_toNat_le.mpr h.le), UInt64.toNat_sub]
  omega

/-- A segment copied into mapped pages. -/
theorem copySegment_spec {vm₀ : Vm} (image : Memory) (ph : Phdr) {vm : Vm}
    {F : List (Fin 512) → Option UInt64} {written : UInt64 → Option UInt8}
    (h : UserSpace vm₀ vm F written)
    (hdst : ∀ a, Memory.InRange ph.pVaddr ph.span a → UserHalf a ∧ ∃ f, F (indices a) = some f) :
    (UserSpace vm₀ (copySegment vm image ph).2 F fun a => (ph.byteAt image a).or (written a)) ∧
      SameTables vm (copySegment vm image ph).2 := by
  have hfile := ph.pFilesz.toNat_lt
  obtain ⟨hcopy, hsame⟩ := elfMemcpy_spec image hfile.le ph.pVaddr ph.pOffset h
    fun a ha => hdst a (by
      unfold Memory.InRange Phdr.span at *
      omega)
  unfold copySegment
  dsimp only
  by_cases hgt : ph.pMemsz > ph.pFilesz
  · rw [if_pos hgt]
    have hmem := (ph.pMemsz - ph.pFilesz).toNat_lt
    obtain ⟨hset, hsame'⟩ := elfMemcpy_spec (fun _ => 0) hmem.le
      (ph.pVaddr + ph.pFilesz) 0 hcopy fun a ha => hdst a (by
        have htail := (inRange_tail (v := ph.pVaddr) (a := a) hgt).mp ha
        rw [UInt64.lt_iff_toNat_lt, UInt64.lt_iff_toNat_lt] at htail
        unfold Memory.InRange Phdr.span
        omega)
    dsimp only
    rw [elfMemset_eq _ _ 0]
    refine ⟨?_, hsame.trans hsame'⟩
    convert hset using 2 with a
    have htail := inRange_tail (v := ph.pVaddr) (a := a) hgt
    unfold Phdr.byteAt
    -- below the file size the image shows, between the two sizes the zeros
    by_cases hlow : a - ph.pVaddr < ph.pFilesz
    · rw [if_pos hlow, if_neg fun h => (htail.mp h).1 hlow,
        if_pos (UInt64.lt_iff_toNat_lt.mp hlow)]
      rfl
    · rw [if_neg hlow, if_neg fun h => hlow (UInt64.lt_iff_toNat_lt.mpr h)]
      by_cases hhigh : a - ph.pVaddr < ph.pMemsz
      · rw [if_pos hhigh, if_pos (htail.mpr ⟨hlow, hhigh⟩)]
        rfl
      · rw [if_neg hhigh, if_neg fun h => hhigh (htail.mp h).2]
        rfl
  · rw [if_neg hgt]
    refine ⟨?_, hsame⟩
    convert hcopy using 2 with a
    unfold Phdr.byteAt
    by_cases hlow : a - ph.pVaddr < ph.pFilesz
    · rw [if_pos hlow, if_pos (UInt64.lt_iff_toNat_lt.mp hlow)]
      rfl
    · have hhigh : ¬ a - ph.pVaddr < ph.pMemsz := by
        rw [gt_iff_lt, UInt64.lt_iff_toNat_lt] at hgt
        rw [UInt64.lt_iff_toNat_lt] at hlow ⊢
        omega
      rw [if_neg hlow, if_neg hhigh, if_neg fun h => hlow (UInt64.lt_iff_toNat_lt.mpr h)]
      rfl

/-! ## Both together -/

theorem segFlags_present (ph : Phdr) : bit ph.segFlags 0 = true := by
  unfold Phdr.segFlags
  split <;> decide

theorem segFlags_mask (ph : Phdr) : ph.segFlags &&& paddrMask = 0 := by
  unfold Phdr.segFlags
  split <;> decide

/-- What the writes of a segment need: they stay in the user half and within the pages, and
every page was mapped. -/
def WritesFit (b : Budget) (ph : Phdr) : Prop :=
  0 < ph.span → ph.pVaddr.toNat + ph.span ≤ 2 ^ 47 ∧
    ph.pVaddr.toNat + ph.span ≤ ph.pageEnd.toNat ∧ ∀ c ∈ (b.load ph.pages).2.1, c.2 = true

theorem pageOf_mem_pages {ph : Phdr} (h : ph.pVaddr.toNat + ph.span ≤ ph.pageEnd.toNat)
    {a : UInt64} (ha : Memory.InRange ph.pVaddr ph.span a) : pageOf a ∈ ph.pages := by
  have hend := ph.pageEnd_aligned
  have := ph.pageEnd.toNat_lt
  rw [Memory.inRange_iff (by omega)] at ha
  rw [Phdr.mem_pages, Phdr.toNat_pageStart, toNat_pageOf]
  omega

theorem indices_pageOf (a : UInt64) : indices (pageOf a) = indices a := by
  rw [indices_eq_iff, toNat_pageOf]
  omega

/-- A segment mapped and copied. -/
theorem segment_spec {vm₀ : Vm} (image : Memory) (ph : Phdr) {vm : Vm}
    {F : List (Fin 512) → Option UInt64} {written : UInt64 → Option UInt8}
    (h : UserSpace vm₀ vm F written)
    (hno : ∀ c ∈ (vm.budget.load ph.pages).2.1, vm₀.NoLarge (indices c.1))
    (hload : (vm.budget.load ph.pages).1 = true) (hfit : WritesFit vm.budget ph) :
    ∃ F', Mapped vm₀ (mapLoop vm ph.segFlags ph.pages).2.2 F written
        (vm.budget.load ph.pages).2.1 F' ∧
      UserSpace vm₀ (copySegment (mapLoop vm ph.segFlags ph.pages).2.2 image ph).2 F' (fun a =>
        (ph.byteAt image a).or
          (if doneAt (vm.budget.load ph.pages).2.1 (indices a) then none else written a)) ∧
      SameTables (mapLoop vm ph.segFlags ph.pages).2.2
        (copySegment (mapLoop vm ph.segFlags ph.pages).2.2 image ph).2 ∧
      (copySegment (mapLoop vm ph.segFlags ph.pages).2.2 image ph).2.budget =
        (vm.budget.load ph.pages).2.2 := by
  obtain ⟨-, -, hbudget, F', hmapped⟩ :=
    mapLoop_spec (segFlags_present ph) (segFlags_mask ph) ph.pages h hno
  obtain ⟨hspace, hsame⟩ := copySegment_spec image ph hmapped.space fun a ha => by
    have hpos : 0 < ph.span := Nat.zero_lt_of_lt ha
    obtain ⟨huser, hend, hdone⟩ := hfit hpos
    constructor
    · rw [Memory.inRange_iff (by omega)] at ha
      unfold UserHalf
      omega
    · have hmem := pageOf_mem_pages hend ha
      rw [← Budget.load_keys hload] at hmem
      obtain ⟨c, hc, hca⟩ := List.mem_map.mp hmem
      apply hmapped.done
      rw [← indices_pageOf, ← hca]
      apply doneAt_of_mem
      rw [← hdone c hc]
      exact hc
  exact ⟨F', hmapped, hspace, hsame, hsame.budget.trans hbudget⟩

end Rhoudveine.Elf
