import Mathlib

/-!
# Ascending lists

Lists of numbers in strict order, and when a number is among their first elements.
-/

namespace Rhoudveine.Ascending

variable {α : Type*} [LinearOrder α] {xs : List α} {x : α}

/-- The place of an element is the number of smaller ones. -/
theorem mem_take_iff (h : xs.Pairwise (· < ·)) (hx : x ∈ xs) (n : ℕ) :
    x ∈ xs.take n ↔ (xs.filter (· < x)).length < n := by
  induction xs generalizing n with
  | nil => cases hx
  | cons y ys ih =>
    obtain ⟨hy, hys⟩ := List.pairwise_cons.mp h
    cases n with
    | zero => simp
    | succ n =>
      rw [List.take_succ_cons, List.mem_cons]
      by_cases heq : x = y
      · have hnone : (y :: ys).filter (· < x) = [] := by
          rw [List.filter_eq_nil_iff]
          intro z hz
          rcases List.mem_cons.mp hz with rfl | hz
          · simp [heq]
          · simpa [heq] using (hy z hz).le
        rw [hnone]
        simp [heq]
      · have hmem : x ∈ ys := (List.mem_cons.mp hx).resolve_left heq
        have hlt : y < x := hy x hmem
        rw [List.filter_cons_of_pos (by simpa using hlt), List.length_cons,
          Nat.add_lt_add_iff_right, ← ih hys hmem n]
        simp [heq]

/-- The list starts with `b`; `b + q` is among the first `n ≥ q` elements unless everything below
it is there as well and fills them. -/
theorem add_mem_take_iff {ys : List ℕ} {b q n : ℕ} (h : (b :: ys).Pairwise (· < ·)) (hq : q ≤ n) :
    b + q ∈ (b :: ys).take n ↔
      b + q ∈ b :: ys ∧ (q = n → ∃ i < q, b + i ∉ b :: ys) := by
  have hbelow : ∀ x ∈ (b :: ys).filter (· < b + q), x ∈ List.range' b q := by
    intro x hx
    obtain ⟨hmem, hlt⟩ := List.mem_filter.mp hx
    have hle : b ≤ x := by
      rcases List.mem_cons.mp hmem with rfl | hmem
      · exact le_rfl
      · exact ((List.pairwise_cons.mp h).1 x hmem).le
    exact List.mem_range'_1.mpr ⟨hle, of_decide_eq_true hlt⟩
  have hnodup : ((b :: ys).filter (· < b + q)).Nodup := h.nodup.filter _
  have hle : ((b :: ys).filter (· < b + q)).length ≤ q := by
    have hsub := (List.subperm_of_subset hnodup hbelow).length_le
    rwa [List.length_range'] at hsub
  constructor
  · intro htake
    have hmem := List.mem_of_mem_take htake
    refine ⟨hmem, ?_⟩
    rintro rfl
    rw [mem_take_iff h hmem] at htake
    by_contra hall
    -- with no gap the numbers from `b` on take all the places
    have hfull : List.range' b q ⊆ (b :: ys).filter (· < b + q) := by
      intro x hx
      obtain ⟨hbx, hxq⟩ := List.mem_range'_1.mp hx
      apply List.mem_filter.mpr
      refine ⟨?_, decide_eq_true hxq⟩
      by_contra hgap
      apply hall
      refine ⟨x - b, by omega, ?_⟩
      rwa [Nat.add_sub_cancel' hbx]
    have hcount := (List.subperm_of_subset (List.nodup_range' ..) hfull).length_le
    rw [List.length_range'] at hcount
    omega
  · rintro ⟨hmem, hgap⟩
    rw [mem_take_iff h hmem]
    by_cases heq : q = n
    · obtain ⟨i, hi, hgone⟩ := hgap heq
      have herase : (b :: ys).filter (· < b + q) ⊆ (List.range' b q).erase (b + i) := by
        intro x hx
        rw [(List.nodup_range' ..).mem_erase_iff]
        refine ⟨?_, hbelow x hx⟩
        rintro rfl
        exact hgone (List.mem_filter.mp hx).1
      have hcount := (List.subperm_of_subset hnodup herase).length_le
      rw [List.length_erase_of_mem (List.mem_range'_1.mpr ⟨by omega, by omega⟩),
        List.length_range'] at hcount
      omega
    · omega

/-- Dropping elements loses those below the rest only. -/
theorem mem_drop_iff (h : xs.Pairwise (· < ·)) {n : ℕ} {b : α} {ys : List α}
    (hdrop : xs.drop n = b :: ys) (hx : b ≤ x) : x ∈ xs.drop n ↔ x ∈ xs := by
  constructor
  · exact List.mem_of_mem_drop
  · intro hmem
    rw [← List.take_append_drop n xs] at hmem h
    rcases List.mem_append.mp hmem with htake | hmem
    · have hlt := (List.pairwise_append.mp h).2.2 x htake b (hdrop ▸ List.mem_cons_self)
      exact absurd hx (not_le.mpr hlt)
    · exact hmem

end Rhoudveine.Ascending
