import Mathlib

/-!
# Bits of a byte array

Bit `i` of an array of bytes is bit `i % 8` of byte `i / 8`, the layout of every
allocation bitmap.
-/

namespace Rhoudveine.ByteBits

/-- Bit `i` of the array. -/
def bit (b : ℕ → UInt8) (i : ℕ) : Bool := (b (i / 8)).toNat.testBit (i % 8)

/-- The byte with the single bit `k`. -/
def mask (k : ℕ) : UInt8 := (1 : UInt8) <<< UInt8.ofNat k

theorem toNat_mask {k : ℕ} (hk : k < 8) : (mask k).toNat = 2 ^ k := by
  interval_cases k <;> rfl

theorem testBit_mask {k j : ℕ} (hk : k < 8) : (mask k).toNat.testBit j = decide (k = j) := by
  rw [toNat_mask hk, Nat.testBit_two_pow]

theorem testBit_not (x : UInt8) {j : ℕ} (hj : j < 8) :
    (~~~x).toNat.testBit j = !x.toNat.testBit j := by
  have h : (~~~x).toNat = 2 ^ 8 - (x.toNat + 1) := by
    rw [UInt8.toNat_not]
    have := x.toNat_lt
    simp only [UInt8.size]
    omega
  rw [h, Nat.testBit_two_pow_sub_succ x.toNat_lt]
  simp [hj]

theorem and_mask_eq_zero (x : UInt8) {k : ℕ} (hk : k < 8) :
    x &&& mask k = 0 ↔ x.toNat.testBit k = false := by
  rw [← UInt8.toNat_inj, UInt8.toNat_and, toNat_mask hk, Nat.and_two_pow]
  cases x.toNat.testBit k <;> simp

theorem bit_or_mask (b : ℕ → UInt8) (i j : ℕ) :
    bit (Function.update b (i / 8) (b (i / 8) ||| mask (i % 8))) j = (bit b j || decide (i = j)) := by
  have hi : i % 8 < 8 := Nat.mod_lt _ (by norm_num)
  unfold bit
  by_cases hq : j / 8 = i / 8
  · rw [hq, Function.update_self, UInt8.toNat_or, Nat.testBit_or, testBit_mask hi]
    congr 1
    rw [decide_eq_decide]
    omega
  · rw [Function.update_of_ne hq]
    have hne : i ≠ j := by rintro rfl; exact hq rfl
    simp [hne]

theorem bit_and_not_mask (b : ℕ → UInt8) (i j : ℕ) :
    bit (Function.update b (i / 8) (b (i / 8) &&& ~~~mask (i % 8))) j =
      (bit b j && !decide (i = j)) := by
  have hi : i % 8 < 8 := Nat.mod_lt _ (by norm_num)
  have hj : j % 8 < 8 := Nat.mod_lt _ (by norm_num)
  unfold bit
  by_cases hq : j / 8 = i / 8
  · rw [hq, Function.update_self, UInt8.toNat_and, Nat.testBit_and, testBit_not _ hj,
      testBit_mask hi]
    congr 2
    rw [decide_eq_decide]
    omega
  · rw [Function.update_of_ne hq]
    have hne : i ≠ j := by rintro rfl; exact hq rfl
    simp [hne]

/-- A byte equal to `0xFF` has no clear bit. -/
theorem bit_of_byte_full {b : ℕ → UInt8} {i : ℕ} (h : b (i / 8) = 0xFF) : bit b i = true := by
  have hi : i % 8 < 8 := Nat.mod_lt _ (by norm_num)
  unfold bit
  rw [h, show (0xFF : UInt8).toNat = 2 ^ 8 - 1 from rfl, Nat.testBit_two_pow_sub_one]
  simpa using hi

/-! ## Counting clear bits -/

/-- The positions below `n` whose bit is clear. -/
def clearBits (b : ℕ → UInt8) (n : ℕ) : Finset ℕ := (Finset.range n).filter fun i => bit b i = false

@[simp] theorem mem_clearBits {b : ℕ → UInt8} {n i : ℕ} :
    i ∈ clearBits b n ↔ i < n ∧ bit b i = false := by
  simp [clearBits]

theorem clearBits_card_le (b : ℕ → UInt8) (n : ℕ) : (clearBits b n).card ≤ n := by
  simpa [clearBits] using Finset.card_filter_le (Finset.range n) fun i => bit b i = false

/-- Setting bit `i` takes `i` out of the clear positions. -/
theorem clearBits_set {b b' : ℕ → UInt8} {i : ℕ} (n : ℕ)
    (h : ∀ j, bit b' j = (bit b j || decide (i = j))) : clearBits b' n = (clearBits b n).erase i := by
  ext j
  simp only [mem_clearBits, h, Bool.or_eq_false_iff, decide_eq_false_iff_not, Finset.mem_erase]
  constructor
  · rintro ⟨hj, hb, hne⟩
    exact ⟨Ne.symm hne, hj, hb⟩
  · rintro ⟨hne, hj, hb⟩
    exact ⟨hj, hb, Ne.symm hne⟩

/-- Clearing bit `i` puts `i` among the clear positions. -/
theorem clearBits_clear {b b' : ℕ → UInt8} {i n : ℕ} (hi : i < n)
    (h : ∀ j, bit b' j = (bit b j && !decide (i = j))) : clearBits b' n = insert i (clearBits b n) := by
  ext j
  simp only [mem_clearBits, h, Bool.and_eq_false_iff, Bool.not_eq_false', decide_eq_true_eq,
    Finset.mem_insert]
  constructor
  · rintro ⟨hj, hb | rfl⟩
    · exact Or.inr ⟨hj, hb⟩
    · exact Or.inl rfl
  · rintro (rfl | ⟨hj, hb⟩)
    · exact ⟨hi, Or.inr rfl⟩
    · exact ⟨hj, Or.inl hb⟩

end Rhoudveine.ByteBits
