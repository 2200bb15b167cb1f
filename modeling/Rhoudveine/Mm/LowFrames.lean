import Rhoudveine.Lib.Ascending
import Rhoudveine.Mm.Frames

/-!
# The free low frames in order

`pfa_alloc_low` takes them from the front.
-/

namespace Rhoudveine.Mm
open ByteBits

/-- The indices of the frames that the low bitmap says are free, in ascending order. -/
def lowFree (s : Pfa) : List ℕ := (List.range maxPages).filter fun i => !bit s.lowBitmap i

theorem lowFree_ascending (s : Pfa) : (lowFree s).Pairwise (· < ·) :=
  List.pairwise_lt_range.filter _

@[simp] theorem mem_lowFree {s : Pfa} {i : ℕ} :
    i ∈ lowFree s ↔ i < maxPages ∧ bit s.lowBitmap i = false := by
  simp [lowFree]

theorem range_split {i n : ℕ} (hi : i < n) :
    List.range n = List.range i ++ i :: List.range' (i + 1) (n - (i + 1)) := by
  have hone : n - (i + 1) + 1 = n - i := by omega
  have hsum : i + (n - i) = n := by omega
  have happend : List.range' 0 i ++ List.range' (0 + i) (n - i) = List.range' 0 (i + (n - i)) :=
    List.range'_append_1
  rw [Nat.zero_add, hsum] at happend
  rw [← List.range'_succ, hone, List.range_eq_range', List.range_eq_range', happend]

theorem pfaAllocLow_lowFree (s : Pfa) :
    (lowFree s = [] ∧ pfaAllocLow s = (0, s)) ∨
      ∃ i is, lowFree s = i :: is ∧ (pfaAllocLow s).1 = UInt64.ofNat i * pageSize ∧
        lowFree (pfaAllocLow s).2 = is := by
  rcases pfaAllocLow_cases s with ⟨i, hi, hclear, hbelow, halloc⟩ | ⟨hall, halloc⟩
  · right
    have hfront : (List.range i).filter (fun j => !bit s.lowBitmap j) = [] := by
      rw [List.filter_eq_nil_iff]
      intro j hj
      simp [hbelow j (List.mem_range.mp hj)]
    have hback {j : ℕ} (hj : j ∈ List.range' (i + 1) (maxPages - (i + 1))) : j ≠ i := by
      have hle := (List.mem_range'_1.mp hj).1
      omega
    refine ⟨i, (List.range' (i + 1) (maxPages - (i + 1))).filter fun j => !bit s.lowBitmap j,
      ?_, ?_, ?_⟩
    · rw [lowFree, range_split hi, List.filter_append, hfront, List.nil_append,
        List.filter_cons_of_pos (by simp [hclear])]
    · rw [halloc]
    · rw [halloc, lowFree, range_split hi, List.filter_append]
      have hfront' : (List.range i).filter
          (fun j => !bit (bitmapSetUsed s.lowBitmap i) j) = [] := by
        rw [List.filter_eq_nil_iff]
        intro j hj
        simp [hbelow j (List.mem_range.mp hj)]
      rw [hfront', List.nil_append, List.filter_cons_of_neg (by simp)]
      apply List.filter_congr
      intro j hj
      simp [(hback hj).symm]
  · left
    refine ⟨?_, halloc⟩
    rw [lowFree, List.filter_eq_nil_iff]
    intro i hi
    simp [hall i (List.mem_range.mp hi)]

end Rhoudveine.Mm
