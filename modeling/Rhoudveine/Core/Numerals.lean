import Rhoudveine.Fs.State
import Rhoudveine.Lib.Decimal

/-!
# Numbers in text

`reverse`, `itoa` and `utoa` of `main.c`, `int_to_str` and `sprintf` of `stdio.c`, and `print_int`
of the user library.
-/

namespace Rhoudveine.Core
open Fs Decimal

/-! ## The code -/

/-- `c = s[i]; s[i] = s[j]; s[j] = c;`. -/
def swap (s : Str) (i j : ℕ) : Str := (s.set i (s.getD j 0)).set j (s.getD i 0)

def reverseLoop : (rounds i j : ℕ) → Str → Str
  | 0, _, _, s => s
  | rounds + 1, i, j, s => if i < j then reverseLoop rounds (i + 1) (j - 1) (swap s i j) else s

def reverse (s : Str) : Str := reverseLoop s.length 0 (s.length - 1) s

/-- `(d > 9) ? (d - 10) + 'A' : d + '0'`. -/
def digitChar (d : UInt64) : UInt8 := if d > 9 then (d - 10).toUInt8 + 0x41 else d.toUInt8 + 0x30

/-- The loop of `itoa` and `utoa`, lowest digit first; `none` if it takes more rounds. -/
def digitsLoop (base : UInt64) : (rounds : ℕ) → UInt64 → Option Str
  | 0, _ => none
  | rounds + 1, un =>
    if un / base > 0 then
      (digitsLoop base rounds (un / base)).map fun s => digitChar (un % base) :: s
    else some [digitChar (un % base)]

def utoa (n base : UInt64) : Option Str :=
  (if n = 0 then some [0x30] else digitsLoop base 64 n).map reverse

def itoa (n : Int64) (base : UInt64) : Option Str :=
  let sign := base = 10 ∧ n < 0
  let un := if sign then (-n).toUInt64 else n.toUInt64
  (if un = 0 then some [0x30] else digitsLoop base 64 un).map fun s =>
    reverse (if sign then s ++ [minus] else s)

/-- The loop that fills `tmp`, lowest digit first. -/
def intToStrLoop : (rounds : ℕ) → UInt64 → Option Str
  | 0, _ => none
  | rounds + 1, unum =>
    if unum > 0 then
      (intToStrLoop rounds (unum / 10)).map fun tmp => (0x30 + (unum % 10).toUInt8) :: tmp
    else some []

/-- What `int_to_str` puts behind the string in the buffer. -/
def intToStr (num : Int64) (isSigned : Bool) : Option Str :=
  let neg := isSigned ∧ num < 0
  let unum := if neg then (-num).toUInt64 else num.toUInt64
  (if unum = 0 then some [0x30] else intToStrLoop 64 unum).map fun tmp =>
    (if neg then [minus] else []) ++ tmp.reverse

/-- An argument, in the type in which it is passed. -/
inductive Arg
  | int (n : Int32)
  | uint (n : UInt32)
  | long (n : Int64)
  | ulong (n : UInt64)
  | str (s : Str)

/-- A conversion of `sprintf`: what it appends and the arguments that are left; `none` where the
next argument is of another type. -/
def sprintfConversion (isLong : Bool) (c : UInt8) (args : List Arg) : Option (Str × List Arg) :=
  if c = 0x64 ∨ c = 0x69 then
    match isLong, args with
    | true, .long n :: args => (intToStr n true).map (·, args)
    | false, .int n :: args => (intToStr n.toInt64 true).map (·, args)
    | _, _ => none
  else if c = 0x75 then
    match isLong, args with
    | true, .ulong n :: args => (intToStr n.toInt64 false).map (·, args)
    | false, .uint n :: args => (intToStr n.toUInt64.toInt64 false).map (·, args)
    | _, _ => none
  else if c = 0x73 then
    match args with
    | .str s :: args => some (s, args)
    | _ => none
  else if c = 0x25 then some ([0x25], args)
  else some ([0x25, c], args)

/-- The string that `sprintf` builds; `none` where the format ends in a conversion. -/
def sprintf : (fmt : Str) → List Arg → Option Str
  | [], _ => some []
  | c :: fmt, args =>
    if c ≠ 0x25 then (sprintf fmt args).map (c :: ·)
    else
      match fmt with
      | [] => none
      | c :: fmt =>
        if c ≠ 0x6C then
          (sprintfConversion false c args).bind fun r => (sprintf fmt r.2).map (r.1 ++ ·)
        else
          match fmt with
          | [] => none
          | c :: fmt =>
            (sprintfConversion true c args).bind fun r => (sprintf fmt r.2).map (r.1 ++ ·)

end Rhoudveine.Core

namespace Rhoudveine.Userlib
open Fs Decimal

theorem toInt_div_ten (n : Int64) : (n / 10).toInt = n.toInt.tdiv 10 :=
  Int64.toInt_div_of_ne_right n 10 (by decide)

theorem natAbs_toInt_neg (n : Int64) : (-n).toInt.natAbs = n.toInt.natAbs := by
  rw [Int64.toInt_neg]
  have hle := n.le_toInt
  have hlt := n.toInt_lt
  rw [Int.bmod_def]
  split_ifs <;> omega

/-- Dividing makes the number smaller. -/
theorem natAbs_div_lt (n : Int64) (h : (if n < 0 then -n else n) ≥ 10) :
    ((if n < 0 then -n else n) / 10).toInt.natAbs < n.toInt.natAbs := by
  have habs : (if n < 0 then -n else n).toInt.natAbs = n.toInt.natAbs := by
    split_ifs
    · exact natAbs_toInt_neg n
    · rfl
  generalize (if n < 0 then -n else n) = m at h habs
  have hten : 10 ≤ m.toInt := Int64.le_iff_toInt_le.mp h
  rw [toInt_div_ten, Int.tdiv_eq_ediv_of_nonneg (by omega)]
  omega

/-- What `print_int` writes to the standard output. -/
def printInt (n : Int64) : Str :=
  let m := if n < 0 then -n else n
  (if n < 0 then [minus] else []) ++ (if h : m ≥ 10 then printInt (m / 10) else []) ++
    [0x30 + (m % 10).toUInt64.toUInt8]
termination_by n.toInt.natAbs
decreasing_by exact natAbs_div_lt n h

end Rhoudveine.Userlib

namespace Rhoudveine.Core
open Fs Decimal Userlib

/-- The three signed conversions write the same numeral of `n`, which fits their buffers. -/
def SignedAgree (n : Int64) : Prop :=
  ∃ s, itoa n 10 = some s ∧ sprintf (str "%ld") [.long n] = some s ∧ printInt n = s ∧
    IsNumeral s n.toInt ∧ s.length + 1 ≤ 32

def UnsignedAgree (n : UInt64) : Prop :=
  ∃ s, utoa n 10 = some s ∧ sprintf (str "%lu") [.ulong n] = some s ∧
    IsNumeral s n.toNat ∧ s.length + 1 ≤ 32

/-! ## Reversing in place -/

variable {s p q : Str} {rounds : ℕ} {n : Int64} {un : UInt64}

theorem swap_ends (p m q : Str) (a b : UInt8) :
    swap (p ++ a :: m ++ b :: q) p.length (p.length + m.length + 1) =
      p ++ b :: m ++ a :: q := by
  have hlast : (p ++ a :: m).length = p.length + m.length + 1 := by
    simp [Nat.add_assoc]
  have ha : (p ++ a :: m ++ b :: q).getD p.length 0 = a := by simp
  have hb : (p ++ a :: m ++ b :: q).getD (p.length + m.length + 1) 0 = b := by
    rw [← hlast, List.getD_append_right _ _ _ _ le_rfl, Nat.sub_self]
    rfl
  have hfirst : (p ++ a :: m ++ b :: q).set p.length b = p ++ b :: m ++ b :: q := by simp
  have hsame : (p ++ b :: m).length = p.length + m.length + 1 := by
    simp [Nat.add_assoc]
  rw [swap, ha, hb, hfirst, ← hsame, List.set_append_right _ _ le_rfl, Nat.sub_self]
  rfl

/-- What stands between the two indices is turned round. -/
theorem reverseLoop_eq (m : Str) (hrounds : m.length ≤ rounds) :
    reverseLoop rounds p.length (p.length + m.length - 1) (p ++ m ++ q) = p ++ m.reverse ++ q := by
  induction m using List.bidirectionalRec generalizing p q rounds with
  | nil =>
    cases rounds with
    | zero => rfl
    | succ rounds =>
      rw [reverseLoop, if_neg (by simp)]
      rfl
  | singleton a =>
    cases rounds with
    | zero => rfl
    | succ rounds =>
      rw [reverseLoop, if_neg (by simp)]
      rfl
  | cons_append a m b ih =>
    simp only [List.length_append, List.length_cons, List.length_nil] at hrounds ⊢
    obtain ⟨rounds, rfl⟩ : ∃ k, rounds = k + 1 := ⟨rounds - 1, by omega⟩
    have hends := swap_ends p m q a b
    have hrest := @ih (p ++ [b]) (a :: q) rounds (by omega)
    simp only [List.length_append, List.length_singleton, List.append_assoc, List.cons_append,
      List.nil_append] at hends hrest ⊢
    rw [reverseLoop, if_pos (by omega),
      show p.length + (m.length + (0 + 1) + 1) - 1 = p.length + m.length + 1 by omega, hends,
      show p.length + m.length + 1 - 1 = p.length + 1 + m.length - 1 by omega, hrest]
    simp

theorem reverse_eq (s : Str) : reverse s = s.reverse := by
  have h := @reverseLoop_eq [] [] s.length s le_rfl
  simpa [reverse] using h

/-! ## Digits -/

theorem digitChar_of_lt (h : un.toNat < 10) : digitChar un = digit un.toNat := by
  have hsmall : ¬ un > 9 := fun hlarge => by
    have hnat := UInt64.lt_iff_toNat_lt.mp hlarge
    have hnine : (9 : UInt64).toNat = 9 := rfl
    omega
  rw [digitChar, if_neg hsmall]
  apply UInt8.toNat_inj.mp
  rw [toNat_digit h, UInt8.toNat_add, UInt64.toNat_toUInt8]
  change (un.toNat % 256 + 48) % 256 = 48 + un.toNat
  omega

theorem toNat_mod_ten (un : UInt64) : (un % 10).toNat = un.toNat % 10 := UInt64.toNat_mod un 10

theorem toNat_div_ten (un : UInt64) : (un / 10).toNat = un.toNat / 10 := UInt64.toNat_div un 10

theorem mod_ten_lt (un : UInt64) : (un % 10).toNat < 10 := by
  rw [toNat_mod_ten]
  exact Nat.mod_lt _ (by norm_num)

/-- Ten divides a numeral into its last digit and the others. -/
theorem natNumeral_div_ten (h : 0 < (un / 10).toNat) :
    (natNumeral un.toNat).reverse =
      digit (un % 10).toNat :: (natNumeral (un / 10).toNat).reverse := by
  rw [toNat_div_ten] at h
  rw [natNumeral_of_le (by omega), List.reverse_append, toNat_mod_ten, toNat_div_ten]
  rfl

/-- As many rounds as digits are enough. -/
theorem exists_digitsLoop (base : UInt64) (hrounds : 0 < rounds)
    (h : un.toNat < base.toNat ^ rounds) : ∃ s, digitsLoop base rounds un = some s := by
  induction rounds generalizing un with
  | zero => exact absurd hrounds (lt_irrefl 0)
  | succ rounds ih =>
    rw [digitsLoop]
    split_ifs with hmore
    · have hpos : 0 < (un / base).toNat := UInt64.lt_iff_toNat_lt.mp hmore
      have hlt : (un / base).toNat < base.toNat ^ rounds := by
        rw [UInt64.toNat_div]
        exact Nat.div_lt_of_lt_mul (by rwa [pow_succ'] at h)
      have hleft : 0 < rounds := Nat.pos_of_ne_zero fun hzero => by
        rw [hzero, pow_zero] at hlt
        omega
      obtain ⟨s, hs⟩ := ih hleft hlt
      exact ⟨_, congrArg (Option.map _) hs⟩
    · exact ⟨_, rfl⟩

theorem digitsLoop_ten (hrounds : 0 < rounds) (h : un.toNat < 10 ^ rounds) :
    digitsLoop 10 rounds un = some (natNumeral un.toNat).reverse := by
  induction rounds generalizing un with
  | zero => exact absurd hrounds (lt_irrefl 0)
  | succ rounds ih =>
    rw [digitsLoop, digitChar_of_lt (mod_ten_lt un)]
    by_cases hmore : un / 10 > 0
    · have hpos : 0 < (un / 10).toNat := UInt64.lt_iff_toNat_lt.mp hmore
      have hlt : (un / 10).toNat < 10 ^ rounds := by
        rw [toNat_div_ten]
        exact Nat.div_lt_of_lt_mul (by rwa [pow_succ'] at h)
      have hleft : 0 < rounds := Nat.pos_of_ne_zero fun hzero => by
        rw [hzero] at hlt
        omega
      rw [if_pos hmore, ih hleft hlt, natNumeral_div_ten hpos]
      rfl
    · have hzero : (un / 10).toNat = 0 := Nat.eq_zero_of_not_pos fun hpos =>
        hmore (UInt64.lt_iff_toNat_lt.mpr hpos)
      rw [toNat_div_ten] at hzero
      rw [if_neg hmore, toNat_mod_ten, natNumeral_of_lt (by omega), Nat.mod_eq_of_lt (by omega)]
      rfl

theorem intToStrLoop_eq (hpos : 0 < un.toNat) (h : un.toNat < 10 ^ rounds) :
    intToStrLoop (rounds + 1) un = some (natNumeral un.toNat).reverse := by
  induction rounds generalizing un with
  | zero => omega
  | succ rounds ih =>
    have hdigit : 0x30 + (un % 10).toUInt8 = digit (un % 10).toNat := by
      rw [← digitChar_of_lt (mod_ten_lt un), digitChar, if_neg, add_comm]
      exact fun hlarge => absurd (UInt64.lt_iff_toNat_lt.mp hlarge) (not_lt.mpr
        (Nat.le_of_lt_succ (mod_ten_lt un)))
    have hmany : un > 0 := UInt64.lt_iff_toNat_lt.mpr hpos
    rw [intToStrLoop, if_pos hmany, hdigit]
    by_cases hmore : 0 < (un / 10).toNat
    · have hlt : (un / 10).toNat < 10 ^ rounds := by
        rw [toNat_div_ten]
        exact Nat.div_lt_of_lt_mul (by rwa [pow_succ'] at h)
      rw [ih hmore hlt, natNumeral_div_ten hmore]
      rfl
    · have hzero : ¬ un / 10 > 0 := fun hlarge => hmore (UInt64.lt_iff_toNat_lt.mp hlarge)
      rw [toNat_div_ten] at hmore
      rw [intToStrLoop, if_neg hzero, toNat_mod_ten, natNumeral_of_lt (by omega),
        Nat.mod_eq_of_lt (by omega)]
      rfl

theorem toNat_magnitude (n : Int64) :
    (if n < 0 then (-n).toUInt64 else n.toUInt64).toNat = n.toInt.natAbs := by
  have hint : n.toInt = if 2 * n.toUInt64.toNat < 2 ^ 64 then (n.toUInt64.toNat : ℤ)
      else n.toUInt64.toNat - 2 ^ 64 := BitVec.toInt_eq_toNat_cond n.toBitVec
  have hlt := n.toUInt64.toNat_lt
  have hneg : n < 0 ↔ n.toInt < 0 := Int64.lt_iff_toInt_lt
  by_cases hsign : n < 0
  · have hbelow := hneg.mp hsign
    have htwo : (-n.toUInt64).toNat = (2 ^ 64 - n.toUInt64.toNat) % 2 ^ 64 := UInt64.toNat_neg _
    rw [if_pos hsign, Int64.toUInt64_neg, htwo]
    split_ifs at hint <;> omega
  · rw [if_neg hsign]
    rw [hneg] at hsign
    split_ifs at hint <;> omega

/-! ## The conversions -/

theorem magnitude_lt (n : Int64) : n.toInt.natAbs < 10 ^ 19 := by
  have hle := n.le_toInt
  have hlt := n.toInt_lt
  omega

/-- The digits of `itoa` and `utoa`, zero included. -/
theorem digits_ten (un : UInt64) :
    (if un = 0 then some [0x30] else digitsLoop 10 64 un) =
      some (natNumeral un.toNat).reverse := by
  split_ifs with hzero
  · rw [hzero, natNumeral_of_lt (by decide)]
    rfl
  · exact digitsLoop_ten (by norm_num) (un.toNat_lt.trans (by norm_num))

/-- The digits of `int_to_str`. -/
theorem intToStr_digits (unum : UInt64) :
    (if unum = 0 then some [0x30] else intToStrLoop 64 unum) =
      some (natNumeral unum.toNat).reverse := by
  split_ifs with hzero
  · rw [hzero, natNumeral_of_lt (by decide)]
    rfl
  · have hpos : 0 < unum.toNat := Nat.pos_of_ne_zero fun h => hzero (UInt64.toNat_inj.mp h)
    exact intToStrLoop_eq hpos (unum.toNat_lt.trans (by norm_num))

theorem utoa_ten (n : UInt64) : utoa n 10 = some (natNumeral n.toNat) := by
  rw [utoa, digits_ten, Option.map_some, reverse_eq, List.reverse_reverse]

theorem itoa_ten (n : Int64) : itoa n 10 = some (numeral n.toInt) := by
  have hneg : n < 0 ↔ n.toInt < 0 := Int64.lt_iff_toInt_lt
  have hmagnitude := toNat_magnitude n
  rw [itoa]
  simp only [true_and]
  rw [digits_ten, Option.map_some, reverse_eq, hmagnitude, numeral]
  by_cases hsign : n < 0
  · rw [if_pos hsign, if_pos (hneg.mp hsign), List.reverse_append, List.reverse_reverse]
    rfl
  · rw [if_neg hsign, if_neg fun h => hsign (hneg.mpr h), List.reverse_reverse]

theorem intToStr_signed (n : Int64) : intToStr n true = some (numeral n.toInt) := by
  have hneg : n < 0 ↔ n.toInt < 0 := Int64.lt_iff_toInt_lt
  have hmagnitude := toNat_magnitude n
  rw [intToStr]
  simp only [true_and]
  rw [intToStr_digits, Option.map_some, hmagnitude, List.reverse_reverse, numeral]
  by_cases hsign : n < 0
  · rw [if_pos hsign, if_pos (hneg.mp hsign)]
    rfl
  · rw [if_neg hsign, if_neg fun h => hsign (hneg.mpr h)]
    rfl

theorem intToStr_unsigned (n : UInt64) :
    intToStr n.toInt64 false = some (natNumeral n.toNat) := by
  rw [intToStr]
  simp only [Bool.false_eq_true, false_and, if_false]
  rw [intToStr_digits, Option.map_some, List.reverse_reverse, List.nil_append]
  rfl

theorem sprintf_ld (n : Int64) : sprintf (str "%ld") [.long n] = some (numeral n.toInt) := by
  have hconversion : sprintf (str "%ld") [.long n] =
      ((intToStr n true).map (·, [])).bind fun r : Str × List Arg =>
        (sprintf [] r.2).map (r.1 ++ ·) := rfl
  rw [hconversion, intToStr_signed]
  simp [sprintf]

theorem sprintf_lu (n : UInt64) : sprintf (str "%lu") [.ulong n] = some (natNumeral n.toNat) := by
  have hconversion : sprintf (str "%lu") [.ulong n] =
      ((intToStr n.toInt64 false).map (·, [])).bind fun r : Str × List Arg =>
        (sprintf [] r.2).map (r.1 ++ ·) := rfl
  rw [hconversion, intToStr_unsigned]
  simp [sprintf]

/-! ## `print_int` -/

theorem toNat_toUInt64 (h : 0 ≤ n.toInt) : n.toUInt64.toNat = n.toInt.natAbs := by
  have hmagnitude := toNat_magnitude n
  rwa [if_neg fun hsign => not_lt.mpr h (Int64.lt_iff_toInt_lt.mp hsign)] at hmagnitude

theorem lastDigit_eq (h : 0 ≤ n.toInt) :
    0x30 + (n % 10).toUInt64.toUInt8 = digit (n.toInt.natAbs % 10) := by
  have hmod : (n % 10).toInt = n.toInt % 10 := by
    rw [Int64.toInt_mod]
    exact Int.tmod_eq_emod_of_nonneg h
  have hnat : (n % 10).toUInt64.toNat = n.toInt.natAbs % 10 := by
    rw [toNat_toUInt64 (by omega), hmod]
    omega
  apply UInt8.toNat_inj.mp
  rw [toNat_digit (Nat.mod_lt _ (by norm_num)), UInt8.toNat_add, UInt64.toNat_toUInt8, hnat]
  change (48 + n.toInt.natAbs % 10 % 256) % 256 = 48 + n.toInt.natAbs % 10
  omega

theorem printInt_nonneg (h : 0 ≤ n.toInt) : printInt n = natNumeral n.toInt.natAbs := by
  induction hsize : n.toInt.natAbs using Nat.strong_induction_on generalizing n with
  | _ size ih =>
    have hsign : ¬ n < 0 := fun hsign => not_lt.mpr h (Int64.lt_iff_toInt_lt.mp hsign)
    have hten : n ≥ 10 ↔ 10 ≤ n.toInt := Int64.le_iff_toInt_le
    rw [printInt, if_neg hsign, if_neg hsign, List.nil_append, lastDigit_eq h, hsize]
    by_cases hmore : n ≥ 10
    · have hdiv : (n / 10).toInt = n.toInt / 10 := by
        rw [toInt_div_ten]
        exact Int.tdiv_eq_ediv_of_nonneg h
      have hlarge := hten.mp hmore
      rw [dif_pos hmore, natNumeral_of_le (by omega),
        ih (size / 10) (by omega) (by omega) (by omega)]
    · have hsmall : size < 10 := by
        rw [hten] at hmore
        omega
      rw [dif_neg hmore, natNumeral_of_lt hsmall, Nat.mod_eq_of_lt hsmall]
      rfl

theorem toInt_neg_of_ne (h : n ≠ Int64.minValue) : (-n).toInt = -n.toInt := by
  have hne : n.toInt ≠ -2 ^ 63 := fun hmin => h (Int64.toInt_inj.mp hmin)
  have hle := n.le_toInt
  have hlt := n.toInt_lt
  rw [Int64.toInt_neg]
  exact Int.bmod_eq_of_le (by omega) (by omega)

/-- A negative number is written as its negation behind a sign. -/
theorem printInt_neg (hsign : n < 0) (h : n ≠ Int64.minValue) :
    printInt n = minus :: printInt (-n) := by
  have hnegative := Int64.lt_iff_toInt_lt.mp hsign
  have hpositive : ¬ -n < 0 := by
    rw [Int64.lt_iff_toInt_lt, toInt_neg_of_ne h]
    change ¬ -n.toInt < 0
    change n.toInt < 0 at hnegative
    omega
  rw [printInt]
  conv_rhs => rw [printInt]
  rw [if_pos hsign, if_pos hsign, if_neg hpositive, if_neg hpositive]
  rfl

theorem printInt_eq (h : n ≠ Int64.minValue) : printInt n = numeral n.toInt := by
  have hneg : n < 0 ↔ n.toInt < 0 := Int64.lt_iff_toInt_lt
  rw [numeral]
  by_cases hsign : n < 0
  · have hbelow := hneg.mp hsign
    have hnegation := toInt_neg_of_ne h
    rw [if_pos hbelow, printInt_neg hsign h, printInt_nonneg (by omega), natAbs_toInt_neg]
  · rw [if_neg fun hbelow => hsign (hneg.mpr hbelow)]
    exact printInt_nonneg (by rw [hneg] at hsign; omega)

/-- The negation of the smallest number is that number again. -/
theorem printInt_minValue : printInt Int64.minValue = str "-(" := by
  rw [printInt]
  decide

theorem signedAgree_of_ne (h : n ≠ Int64.minValue) : SignedAgree n := by
  have hlen := length_numeral_le (by norm_num) (magnitude_lt n)
  exact ⟨numeral n.toInt, itoa_ten n, sprintf_ld n, printInt_eq h, isNumeral_numeral n.toInt,
    by omega⟩

theorem not_isNumeral_printInt_minValue :
    ¬ IsNumeral (printInt Int64.minValue) Int64.minValue.toInt := by
  intro h
  have hparses := h.parses
  rw [printInt_minValue] at hparses
  revert hparses
  decide

theorem unsignedAgree (n : UInt64) : UnsignedAgree n := by
  have hlt : n.toNat < 10 ^ 20 := n.toNat_lt.trans (by norm_num)
  have hnumeral := isNumeral_numeral (n.toNat : ℤ)
  rw [numeral, if_neg (by omega), Int.natAbs_natCast] at hnumeral
  have hlen := length_natNumeral_le (by norm_num) hlt
  exact ⟨natNumeral n.toNat, utoa_ten n, sprintf_lu n, hnumeral, by omega⟩

/-- The conversions agree on every number but the smallest. -/
theorem numerals_agree_iff (n : Int64) (u : UInt64) :
    (SignedAgree n ↔ n ≠ Int64.minValue) ∧ UnsignedAgree u := by
  refine ⟨⟨?_, signedAgree_of_ne⟩, unsignedAgree u⟩
  rintro ⟨s, -, -, rfl, hnumeral, -⟩ rfl
  exact not_isNumeral_printInt_minValue hnumeral

theorem smallest_not_agree : ¬ SignedAgree Int64.minValue := by
  rintro ⟨s, -, -, rfl, hnumeral, -⟩
  exact not_isNumeral_printInt_minValue hnumeral

end Rhoudveine.Core
