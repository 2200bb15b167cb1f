import Mathlib

/-!
# Little-endian words in byte sequences

A word is read from consecutive bytes, least significant first, and every word has its
bytes.
-/

namespace Rhoudveine.LittleEndian

/-- The number whose `n` bytes start at index `i`. -/
def le (b : ℕ → UInt8) (i : ℕ) : (n : ℕ) → ℕ
  | 0 => 0
  | n + 1 => (b i).toNat + 256 * le b (i + 1) n

/-- Byte `k` of a number. -/
def leByte (v k : ℕ) : UInt8 := UInt8.ofNat (v / 256 ^ k)

theorem le_lt (b : ℕ → UInt8) (i n : ℕ) : le b i n < 256 ^ n := by
  induction n generalizing i with
  | zero => exact Nat.one_pos
  | succ n ih =>
    have hbyte := (b i).toNat_lt
    have hrest := ih (i + 1)
    rw [le, pow_succ]
    omega

theorem le_congr {b b' : ℕ → UInt8} {i i' n : ℕ} (h : ∀ k < n, b (i + k) = b' (i' + k)) :
    le b i n = le b' i' n := by
  induction n generalizing i i' with
  | zero => rfl
  | succ n ih =>
    have hrest : le b (i + 1) n = le b' (i' + 1) n := by
      apply ih
      intro k hk
      have hnext := h (k + 1) (by omega)
      rwa [Nat.add_assoc, Nat.add_comm 1 k, Nat.add_assoc, Nat.add_comm 1 k]
    rw [le, le, hrest]
    have hfirst := h 0 (by omega)
    rw [Nat.add_zero, Nat.add_zero] at hfirst
    rw [hfirst]

/-- Reading the bytes of a number. -/
theorem le_leByte {b : ℕ → UInt8} {i n v : ℕ} (h : ∀ k < n, b (i + k) = leByte v k) :
    le b i n = v % 256 ^ n := by
  induction n generalizing i v with
  | zero => rw [le, pow_zero, Nat.mod_one]
  | succ n ih =>
    have hrest : le b (i + 1) n = v / 256 % 256 ^ n := by
      apply ih
      intro k hk
      have hnext := h (k + 1) (by omega)
      rw [Nat.add_assoc, Nat.add_comm 1 k, hnext, leByte, leByte, pow_succ', Nat.div_div_eq_div_mul]
    have hfirst := h 0 (by omega)
    rw [Nat.add_zero, leByte, pow_zero, Nat.div_one] at hfirst
    have hbyte : (UInt8.ofNat v).toNat = v % 256 := UInt8.toNat_ofNat'
    rw [le, hrest, hfirst, hbyte, pow_succ']
    exact Nat.mod_mul.symm

theorem le_zero {b : ℕ → UInt8} {i n : ℕ} (h : ∀ k < n, b (i + k) = 0) : le b i n = 0 := by
  have hzero (k : ℕ) : leByte 0 k = 0 := by
    rw [leByte, Nat.zero_div]
    rfl
  have hle : le b i n = 0 % 256 ^ n := le_leByte fun k hk => (h k hk).trans (hzero k).symm
  rw [hle, Nat.zero_mod]

end Rhoudveine.LittleEndian
