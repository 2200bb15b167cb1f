import Mathlib

/-!
# Machine words as natural numbers

Rounding a 64-bit address to a power of two with a mask, and words read bit by bit.
-/

namespace Rhoudveine.Words

theorem testBit_not64 (x : UInt64) {j : ℕ} (hj : j < 64) :
    (~~~x).toNat.testBit j = !x.toNat.testBit j := by
  have h : (~~~x).toNat = 2 ^ 64 - (x.toNat + 1) := by
    rw [UInt64.toNat_not]
    have := x.toNat_lt
    simp only [UInt64.size]
    omega
  rw [h, Nat.testBit_two_pow_sub_succ x.toNat_lt]
  simp [hj]

/-- `a & ~(2^k - 1)` rounds `a` down to a multiple of `2^k`. -/
theorem toNat_and_not_low (a m : UInt64) {k : ℕ} (hm : m.toNat = 2 ^ k - 1) :
    (a &&& ~~~m).toNat = a.toNat / 2 ^ k * 2 ^ k := by
  apply Nat.eq_of_testBit_eq
  intro i
  rw [UInt64.toNat_and, Nat.testBit_and, Nat.testBit_mul_two_pow]
  rcases Nat.lt_or_ge i 64 with hi | hi
  · rw [testBit_not64 m hi, hm, Nat.testBit_two_pow_sub_one]
    by_cases hk : k ≤ i
    · simp [hk, Nat.testBit_div_two_pow, Nat.not_lt.mpr hk]
    · simp [hk, Nat.lt_of_not_le hk]
  · have ha : a.toNat.testBit i = false :=
      Nat.testBit_lt_two_pow (a.toNat_lt.trans_le (Nat.pow_le_pow_right (by norm_num) hi))
    by_cases hk : k ≤ i
    · simp [hk, Nat.testBit_div_two_pow, ha]
    · simp [hk, ha]

/-- `a & (2^k - 1)` is the remainder modulo `2^k`. -/
theorem toNat_and_low (a m : UInt64) {k : ℕ} (hm : m.toNat = 2 ^ k - 1) :
    (a &&& m).toNat = a.toNat % 2 ^ k := by
  rw [UInt64.toNat_and, hm, Nat.and_two_pow_sub_one_eq_mod]

/-! ## Bits -/

/-- Bit `i` of `x`. -/
def bit (x : UInt64) (i : ℕ) : Bool := x.toNat.testBit i

@[simp] theorem bit_and (x y : UInt64) (i : ℕ) : bit (x &&& y) i = (bit x i && bit y i) := by
  rw [bit, UInt64.toNat_and, Nat.testBit_and, bit, bit]

@[simp] theorem bit_or (x y : UInt64) (i : ℕ) : bit (x ||| y) i = (bit x i || bit y i) := by
  rw [bit, UInt64.toNat_or, Nat.testBit_or, bit, bit]

theorem bit_of_ge (x : UInt64) {i : ℕ} (hi : 64 ≤ i) : bit x i = false :=
  Nat.testBit_lt_two_pow (x.toNat_lt.trans_le (Nat.pow_le_pow_right (by norm_num) hi))

/-- Words with the same bits are equal. -/
theorem eq_of_bit {x y : UInt64} (h : ∀ i < 64, bit x i = bit y i) : x = y := by
  apply UInt64.toNat_inj.mp
  apply Nat.eq_of_testBit_eq
  intro i
  by_cases hi : i < 64
  · exact h i hi
  · exact (bit_of_ge x (by omega)).trans (bit_of_ge y (by omega)).symm

theorem bit_two_pow {m : UInt64} {k : ℕ} (hm : m.toNat = 2 ^ k) (i : ℕ) :
    bit m i = decide (k = i) := by
  rw [bit, hm, Nat.testBit_two_pow]

/-- `x & (1 << k)` tests bit `k`. -/
theorem and_two_pow_eq_zero {x m : UInt64} {k : ℕ} (hm : m.toNat = 2 ^ k) :
    x &&& m = 0 ↔ bit x k = false := by
  constructor
  · intro h
    have hbit : bit (x &&& m) k = bit 0 k := by rw [h]
    rw [bit_and, bit_two_pow hm, decide_eq_true rfl, Bool.and_true] at hbit
    rw [hbit]
    exact Nat.zero_testBit k
  · intro h
    apply eq_of_bit
    intro i _
    rw [bit_and, bit_two_pow hm]
    have hzero : bit 0 i = false := Nat.zero_testBit i
    by_cases hki : k = i
    · rw [← hki, h, hki, hzero, Bool.false_and]
    · rw [decide_eq_false hki, Bool.and_false, hzero]

/-- The low bits of a multiple of `2^k` are clear. -/
theorem bit_of_aligned {x : UInt64} {k i : ℕ} (hx : x.toNat % 2 ^ k = 0) (hi : i < k) :
    bit x i = false := by
  have h := Nat.testBit_mod_two_pow x.toNat k i
  rw [hx, Nat.zero_testBit, decide_eq_true hi, Bool.true_and] at h
  exact h.symm

theorem bit_of_lt {x : UInt64} {k i : ℕ} (hx : x.toNat < 2 ^ k) (hi : k ≤ i) : bit x i = false :=
  Nat.testBit_lt_two_pow (hx.trans_le (Nat.pow_le_pow_right (by norm_num) hi))

end Rhoudveine.Words
