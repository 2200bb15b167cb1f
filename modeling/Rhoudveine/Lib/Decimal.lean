import Mathlib

/-!
# Decimal numerals

The numeral of an integer in ASCII, and what makes a string one.
-/

namespace Rhoudveine.Decimal

def minus : UInt8 := 0x2D

def digit (d : ℕ) : UInt8 := UInt8.ofNat (0x30 + d)

def IsDigit (c : UInt8) : Prop := 0x30 ≤ c.toNat ∧ c.toNat ≤ 0x39

instance (c : UInt8) : Decidable (IsDigit c) := inferInstanceAs (Decidable (_ ∧ _))

/-- The digits of `n`, the highest first. -/
def natNumeral (n : ℕ) : List UInt8 :=
  if n < 10 then [digit n] else natNumeral (n / 10) ++ [digit (n % 10)]

def numeral (n : ℤ) : List UInt8 :=
  if n < 0 then minus :: natNumeral n.natAbs else natNumeral n.natAbs

def value (s : List UInt8) : ℕ := s.foldl (fun v c => 10 * v + (c.toNat - 0x30)) 0

/-- The number that digits stand for. -/
def parseNat (s : List UInt8) : Option ℕ :=
  if s ≠ [] ∧ ∀ c ∈ s, IsDigit c then some (value s) else none

/-- The number that digits stand for, with a minus sign or without. -/
def parse : List UInt8 → Option ℤ
  | [] => none
  | c :: s =>
    if c = minus then (parseNat s).map fun v : ℕ => -(v : ℤ) else (parseNat (c :: s)).map Nat.cast

/-- The string is read as `n`, has a sign only if `n` is negative, and no leading zeros. -/
structure IsNumeral (s : List UInt8) (n : ℤ) : Prop where
  parses : parse s = some n
  sign : s.head? = some minus ↔ n < 0
  leading : ∀ t, s = 0x30 :: t ∨ s = minus :: 0x30 :: t → t = []

variable {n k d : ℕ} {s : List UInt8}

theorem natNumeral_of_lt (h : n < 10) : natNumeral n = [digit n] := by
  rw [natNumeral, if_pos h]

theorem natNumeral_of_le (h : 10 ≤ n) :
    natNumeral n = natNumeral (n / 10) ++ [digit (n % 10)] := by
  rw [natNumeral, if_neg (by omega)]

@[simp] theorem toNat_digit (h : d < 10) : (digit d).toNat = 0x30 + d := by
  rw [digit, UInt8.toNat_ofNat']
  exact Nat.mod_eq_of_lt (by omega)

theorem isDigit_digit (h : d < 10) : IsDigit (digit d) := by
  rw [IsDigit, toNat_digit h]
  omega

theorem isDigit_of_mem_natNumeral {c : UInt8} (h : c ∈ natNumeral n) : IsDigit c := by
  induction n using natNumeral.induct with
  | case1 n hn =>
    rw [natNumeral_of_lt hn] at h
    rw [List.mem_singleton.mp h]
    exact isDigit_digit hn
  | case2 n hn ih =>
    rw [natNumeral_of_le (by omega)] at h
    rcases List.mem_append.mp h with h | h
    · exact ih h
    · rw [List.mem_singleton.mp h]
      exact isDigit_digit (Nat.mod_lt n (by norm_num))

theorem natNumeral_ne_nil : natNumeral n ≠ [] := by
  rw [natNumeral]
  split_ifs
  · exact List.cons_ne_nil _ _
  · exact List.append_ne_nil_of_right_ne_nil _ (List.cons_ne_nil _ _)

theorem value_concat (s : List UInt8) (c : UInt8) :
    value (s ++ [c]) = 10 * value s + (c.toNat - 0x30) := by
  rw [value, List.foldl_append]
  rfl

@[simp] theorem value_natNumeral (n : ℕ) : value (natNumeral n) = n := by
  induction n using natNumeral.induct with
  | case1 n hn =>
    rw [natNumeral_of_lt hn, ← List.nil_append [digit n], value_concat, toNat_digit hn]
    simp [value]
  | case2 n hn ih =>
    rw [natNumeral_of_le (by omega), value_concat, ih, toNat_digit (Nat.mod_lt n (by norm_num))]
    omega

theorem parseNat_natNumeral (n : ℕ) : parseNat (natNumeral n) = some n := by
  rw [parseNat, if_pos ⟨natNumeral_ne_nil, fun c hc => isDigit_of_mem_natNumeral hc⟩,
    value_natNumeral]

/-- Only zero starts with one. -/
theorem head?_natNumeral (h : (natNumeral n).head? = some 0x30) : n = 0 := by
  induction n using natNumeral.induct with
  | case1 n hn =>
    rw [natNumeral_of_lt hn, List.head?_cons] at h
    have hcode := congrArg UInt8.toNat (Option.some.inj h)
    rw [toNat_digit hn] at hcode
    exact Nat.add_left_cancel hcode
  | case2 n hn ih =>
    rw [natNumeral_of_le (by omega), List.head?_append_of_ne_nil _ natNumeral_ne_nil] at h
    have hzero := ih h
    omega

theorem length_natNumeral_le (hk : 0 < k) (h : n < 10 ^ k) : (natNumeral n).length ≤ k := by
  induction n using natNumeral.induct generalizing k with
  | case1 n hn =>
    rw [natNumeral_of_lt hn]
    exact hk
  | case2 n hn ih =>
    obtain ⟨k, rfl⟩ : ∃ l, k = l + 1 := ⟨k - 1, by omega⟩
    rw [natNumeral_of_le (by omega), List.length_append]
    have hpos : 0 < k := by
      rcases Nat.eq_zero_or_pos k with rfl | hpos
      · omega
      · exact hpos
    have hrest := ih hpos (Nat.div_lt_of_lt_mul (by rwa [pow_succ'] at h))
    exact Nat.add_le_add_right hrest 1

theorem not_isDigit_minus : ¬ IsDigit minus := by decide

theorem natNumeral_head_ne : (natNumeral n).head? ≠ some minus := fun h =>
  not_isDigit_minus (isDigit_of_mem_natNumeral (List.mem_of_head? h))

theorem parse_natNumeral (n : ℕ) : parse (natNumeral n) = some (n : ℤ) := by
  obtain ⟨c, s, hs⟩ := List.exists_cons_of_ne_nil (@natNumeral_ne_nil n)
  have hc : c ≠ minus := fun hc => @natNumeral_head_ne n (by rw [hs, hc]; rfl)
  rw [hs, parse, if_neg hc, ← hs, parseNat_natNumeral]
  rfl

theorem natNumeral_leading {t : List UInt8} (h : natNumeral n = 0x30 :: t) : t = [] := by
  have hzero := head?_natNumeral (n := n) (by rw [h]; rfl)
  rw [hzero, natNumeral_of_lt (by norm_num)] at h
  exact (List.cons.inj h).2.symm

theorem isNumeral_numeral (n : ℤ) : IsNumeral (numeral n) n := by
  unfold numeral
  split_ifs with hneg
  · have hpos : n.natAbs ≠ 0 := by omega
    refine ⟨?_, by simp [hneg], ?_⟩
    · rw [parse, if_pos rfl, parseNat_natNumeral, Option.map_some,
        Int.ofNat_natAbs_of_nonpos hneg.le, neg_neg]
    · rintro t (h | h)
      · cases (List.cons.inj h).1
      · exact natNumeral_leading (List.cons.inj h).2
  · refine ⟨?_, by simp [hneg, natNumeral_head_ne], ?_⟩
    · rw [parse_natNumeral, Int.natAbs_of_nonneg (not_lt.mp hneg)]
    · rintro t (h | h)
      · exact natNumeral_leading h
      · exact absurd (by rw [h]; rfl) (@natNumeral_head_ne n.natAbs)

theorem length_numeral_le (hk : 0 < k) {n : ℤ} (h : n.natAbs < 10 ^ k) :
    (numeral n).length ≤ k + 1 := by
  have hlen := length_natNumeral_le hk h
  unfold numeral
  split_ifs
  · exact Nat.succ_le_succ hlen
  · exact hlen.trans (Nat.le_succ k)

end Rhoudveine.Decimal
