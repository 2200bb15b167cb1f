import Rhoudveine.Elf.Exec

/-!
# Loads that fail

What a negative return code leaves behind.
-/

namespace Rhoudveine.Elf
open Mm Words

/-- The user half looks as before: same translations, same bytes. -/
def SameForUser (vm vm' : Vm) : Prop :=
  ∀ v, UserHalf v → vm'.translate v = vm.translate v ∧ readVirt vm' v = readVirt vm v

/-- Neither the user half nor the free frames have changed. -/
def Unharmed (vm vm' : Vm) : Prop :=
  SameForUser vm vm' ∧ ∀ q, FreeFrame vm'.pfa q ↔ FreeFrame vm.pfa q

/-- A `PT_LOAD` header that is not refused and asks for no page. -/
def pageless (size : UInt32) (ph : Phdr) : Bool :=
  decide (ph.pOffset + ph.pFilesz ≤ size.toUInt64) && ph.pages.isEmpty

/-- The copies of segments without pages, into what is mapped already. -/
def copySegments (vm : Vm) (image : Memory) : List Phdr → Vm
  | [] => vm
  | ph :: phs => copySegments (copySegment vm image ph).2 image phs

@[simp] theorem copySegments_pfa (vm : Vm) (image : Memory) (phs : List Phdr) :
    (copySegments vm image phs).pfa = vm.pfa := by
  induction phs generalizing vm with
  | nil => rfl
  | cons ph phs ih => rw [copySegments, ih, copySegment_pfa]

/-- Without a free frame the page loop stops at once. -/
theorem mapLoop_of_zero {vm : Vm} (h : WellFormed vm.pfa) (flags v : UInt64) (pages : List UInt64)
    (hz : (pfaAllocLow vm.pfa).1 = 0) : mapLoop vm flags (v :: pages) = (false, [], vm) := by
  rw [mapLoop]
  dsimp only
  rw [if_pos hz, pfaAllocLow_of_zero h hz]

/-- Up to the first header that is refused or has pages, the loader takes no frame, and it
stops there with an untouched allocator or takes one. -/
theorem loadSegments_failure (image : Memory) (size : UInt32) (offs : List UInt64) {vm : Vm}
    (h : WellFormed vm.pfa) :
    ((loadHeaders image offs).dropWhile (pageless size) = [] ∧
      (loadSegments vm image size offs).1 = none ∧
      (loadSegments vm image size offs).2.2 =
        copySegments vm image ((loadHeaders image offs).takeWhile (pageless size))) ∨
    ∃ ph rest, (loadHeaders image offs).dropWhile (pageless size) = ph :: rest ∧
      ((vm.pfa.lowFreeCount.toNat = 0 ∨ ¬ ph.pOffset + ph.pFilesz ≤ size.toUInt64) ∧
        (loadSegments vm image size offs).1 ≠ none ∧
        (loadSegments vm image size offs).2.2 =
          copySegments vm image ((loadHeaders image offs).takeWhile (pageless size)) ∨
      (vm.pfa.lowFreeCount.toNat ≠ 0 ∧ ph.pOffset + ph.pFilesz ≤ size.toUInt64) ∧
        ∃ q, FreeFrame vm.pfa q ∧ ¬ FreeFrame (loadSegments vm image size offs).2.2.pfa q) := by
  induction offs generalizing vm with
  | nil => exact Or.inl ⟨rfl, rfl, rfl⟩
  | cons off offs ih =>
    rw [loadHeaders_cons, loadSegments]
    rw [loadSegment]
    dsimp only
    generalize phdrAt image off = ph
    by_cases htype : ph.pType = ptLoad
    swap
    · rw [if_neg htype, if_pos htype]
      exact ih h
    rw [if_pos htype, if_neg (not_not.mpr htype)]
    by_cases hbound : ph.pOffset + ph.pFilesz > size.toUInt64
    · -- the header is refused
      have hnot := UInt64.not_le.mpr hbound
      have hpageless : pageless size ph = false := by simp [pageless, hnot]
      rw [List.dropWhile_cons_of_neg (by simp [hpageless]),
        List.takeWhile_cons_of_neg (by simp [hpageless]), if_pos hbound]
      exact Or.inr ⟨ph, _, rfl, Or.inl ⟨Or.inr hnot, by simp, rfl⟩⟩
    rw [if_neg hbound]
    have hle := UInt64.not_lt.mp hbound
    cases hpages : ph.pages with
    | nil =>
      have hpageless : pageless size ph = true := by simp [pageless, hle, hpages]
      rw [List.dropWhile_cons_of_pos hpageless, List.takeWhile_cons_of_pos hpageless, mapLoop]
      dsimp only
      rw [if_pos rfl, copySegments]
      dsimp only
      have hpfa := copySegment_pfa vm image ph
      have hrest := ih (show WellFormed (copySegment vm image ph).2.pfa by rw [hpfa]; exact h)
      rw [hpfa] at hrest
      exact hrest
    | cons v pages =>
      have hpageless : pageless size ph = false := by simp [pageless, hpages]
      rw [List.dropWhile_cons_of_neg (by simp [hpageless]),
        List.takeWhile_cons_of_neg (by simp [hpageless])]
      refine Or.inr ⟨ph, _, rfl, ?_⟩
      rcases pfaAllocLow_count h with ⟨hz, hcount⟩ | ⟨hz, hcount⟩
      · -- the first page takes a frame
        right
        refine ⟨⟨by omega, hle⟩, (pfaAllocLow vm.pfa).1, ?_, ?_⟩
        · exact Or.inl ((pfaAllocLow_lowest h).2 hz).1
        · have htakes := mapLoop_takes h ph.segFlags v pages hz
          intro hfree
          apply htakes
          have hloop := (mapLoop_shrinks h ph.segFlags (v :: pages)).1.wf
          generalize mapLoop vm ph.segFlags (v :: pages) = mapped at hfree hloop ⊢
          by_cases hmapped : mapped.1 = true
          · rw [if_pos hmapped] at hfree
            dsimp only at hfree
            have hrest := (loadSegments_shrinks
              (show WellFormed (copySegment mapped.2.2 image ph).2.pfa by
                rw [copySegment_pfa]
                exact hloop) image size offs).free _ hfree
            rwa [copySegment_pfa] at hrest
          · rw [if_neg hmapped] at hfree
            exact hfree
      · -- no frame is left
        left
        rw [mapLoop_of_zero h ph.segFlags v pages hz]
        exact ⟨Or.inl hcount, by simp, rfl⟩

theorem not_unharmed_of_taken {vm vm' : Vm} {q : UInt64} (h : FreeFrame vm.pfa q)
    (h' : ¬ FreeFrame vm'.pfa q) : ¬ Unharmed vm vm' := fun hun => h' ((hun.2 q).mpr h)

theorem unharmed_iff_of_pfa {vm vm' : Vm} (h : vm'.pfa = vm.pfa) :
    Unharmed vm vm' ↔ SameForUser vm vm' := by
  unfold Unharmed
  rw [h]
  exact and_iff_left fun _ => Iff.rfl

/-- A load leaves the caller unharmed exactly when it stopped before it took a frame and the
segments without pages, which it copied over the caller's memory, changed nothing there. -/
theorem unharmed_iff {vm : Vm} (h : WellFormed vm.pfa) (image : Memory) (size : UInt32) :
    Unharmed vm (elf64LoadAndRun vm image size).2.2 ↔
      size < ehdrSize ∨ validMagic image = false ∨ image 4 ≠ 2 ∨
        SameForUser vm (copySegments vm image
          ((loadHeaders image (phdrOffsets image)).takeWhile (pageless size))) ∧
        (vm.pfa.lowFreeCount.toNat = 0 ∨
          ∃ ph rest, (loadHeaders image (phdrOffsets image)).dropWhile (pageless size) = ph :: rest ∧
            ¬ ph.pOffset + ph.pFilesz ≤ size.toUInt64) := by
  have hrefl : Unharmed vm vm := ⟨fun _ _ => ⟨rfl, rfl⟩, fun _ => Iff.rfl⟩
  have hsegments := loadSegments_failure image size (phdrOffsets image) h
  have hshrinks := (loadSegments_shrinks h image size (phdrOffsets image)).wf
  rw [elf64LoadAndRun]
  by_cases hsize : size < ehdrSize
  · rw [if_pos hsize]
    exact iff_of_true hrefl (Or.inl hsize)
  rw [if_neg hsize]
  by_cases hmagic : validMagic image = false
  · rw [if_pos (by simp [hmagic])]
    exact iff_of_true hrefl (Or.inr (Or.inl hmagic))
  rw [if_neg (by simpa using hmagic)]
  by_cases hclass : image 4 ≠ 2
  · rw [if_pos hclass]
    exact iff_of_true hrefl (Or.inr (Or.inr (Or.inl hclass)))
  rw [if_neg hclass]
  rw [or_iff_right hsize, or_iff_right hmagic, or_iff_right hclass]
  dsimp only
  generalize loadSegments vm image size (phdrOffsets image) = loaded at hsegments hshrinks ⊢
  generalize (loadHeaders image (phdrOffsets image)).takeWhile (pageless size) = quiet at hsegments ⊢
  generalize (loadHeaders image (phdrOffsets image)).dropWhile (pageless size) = rest at hsegments ⊢
  have hpfa := copySegments_pfa vm image quiet
  rcases hsegments with ⟨hrest, hnone, hcopied⟩ |
    ⟨ph, rest', hrest, ⟨hstop, hsome, hcopied⟩ | ⟨⟨hfree, hbound⟩, q, hq, htaken⟩⟩
  · -- all segments are without pages, and the init stack runs out of frames
    rw [hnone]
    dsimp only
    have hpfa' : loaded.2.2.pfa = vm.pfa := by rw [hcopied, hpfa]
    obtain ⟨v, pages, hstack⟩ : ∃ v pages, stackPages = v :: pages := ⟨_, _, rfl⟩
    rw [hstack]
    rcases pfaAllocLow_count h with ⟨hz, hcount⟩ | ⟨hz, hcount⟩
    · rw [← hpfa'] at hz
      have htakes := mapLoop_takes hshrinks stackFlags v pages hz
      have hfree := ((pfaAllocLow_lowest hshrinks).2 hz).1
      rw [hpfa'] at hfree
      generalize mapLoop loaded.2.2 stackFlags (v :: pages) = stack at htakes ⊢
      rw [hpfa'] at htakes
      apply iff_of_false
      · split
        · exact not_unharmed_of_taken (Or.inl hfree) htakes
        · exact not_unharmed_of_taken (Or.inl hfree) htakes
      · rintro ⟨-, hzero | ⟨ph, rest', hrest', -⟩⟩
        · omega
        · rw [hrest] at hrest'
          cases hrest'
    · rw [← hpfa'] at hz
      rw [mapLoop_of_zero hshrinks stackFlags v pages hz]
      dsimp only
      rw [if_neg (by simp), unharmed_iff_of_pfa hpfa', hcopied]
      exact (and_iff_left (Or.inl hcount)).symm
  · -- a header is refused, or its first page gets no frame
    obtain ⟨c, hc⟩ := Option.ne_none_iff_exists'.mp hsome
    rw [hc]
    dsimp only
    rw [unharmed_iff_of_pfa (by rw [hcopied, hpfa]), hcopied]
    apply (and_iff_left _).symm
    exact hstop.imp_right fun hnot => ⟨ph, rest', hrest, hnot⟩
  · -- a frame has been taken
    apply iff_of_false
    · split
      · exact not_unharmed_of_taken hq htaken
      · have hstack := (mapLoop_shrinks hshrinks stackFlags stackPages).1
        have htaken' := fun hfree => htaken (hstack.free q hfree)
        split
        · exact not_unharmed_of_taken hq htaken'
        · exact not_unharmed_of_taken hq htaken'
    · rintro ⟨-, hzero | ⟨ph', rest'', hrest', hnot⟩⟩
      · exact hfree hzero
      · rw [hrest] at hrest'
        obtain ⟨rfl, -⟩ := List.cons.inj hrest'
        exact hnot hbound

end Rhoudveine.Elf
