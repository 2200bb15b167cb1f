import Rhoudveine.Fat32.Listing

/-!
# Long names

The records that hold a long name, and what a scan has read of it in front of the short record.
-/

namespace Rhoudveine.Fat32
open Fs LittleEndian

/-! ## Characters -/

/-- The character that stands for a unit of a long name. -/
def asciiOf (u : UInt16) : UInt8 := if u < 0x80 then u.toUInt8 else 0x3F

/-- Unit `k` of a long-name record. -/
def Record.unit (r : Record) (k : ℕ) : UInt16 := UInt16.ofNat (le r (Lfn.charIndex k) 2)

theorem asciiOf_ne_zero {u : UInt16} (hu : u ≠ 0) : asciiOf u ≠ 0 := by
  unfold asciiOf
  split_ifs with hlt
  · intro h
    apply hu
    rw [UInt16.lt_iff_toNat_lt] at hlt
    have hnat := congrArg UInt8.toNat h
    rw [UInt16.toNat_toUInt8] at hnat
    apply UInt16.toNat_inj.mp
    change u.toNat < 128 at hlt
    change u.toNat % 256 = 0 at hnat
    change u.toNat = 0
    omega
  · decide

theorem lfnChar_eq (r : Record) (k : ℕ) : Lfn.char r k = asciiOf (r.unit k) := by
  have hlow := UInt8.toNat_lt (r (Lfn.charIndex k))
  have hhigh := UInt8.toNat_lt (r (Lfn.charIndex k + 1))
  have hunit : (r.unit k).toNat =
      (r (Lfn.charIndex k)).toNat + 256 * (r (Lfn.charIndex k + 1)).toNat := by
    rw [Record.unit, UInt16.toNat_ofNat']
    simp only [le, Nat.mul_zero, Nat.add_zero]
    omega
  have hzero : r (Lfn.charIndex k + 1) = 0 ↔ (r (Lfn.charIndex k + 1)).toNat = 0 :=
    UInt8.toNat_inj.symm
  have hcond : r (Lfn.charIndex k) < 0x80 ∧ r (Lfn.charIndex k + 1) = 0 ↔ r.unit k < 0x80 := by
    rw [hzero, UInt8.lt_iff_toNat_lt, UInt16.lt_iff_toNat_lt, hunit]
    change _ < 128 ∧ _ ↔ _ < 128
    omega
  rw [Lfn.char, asciiOf]
  simp only [hcond]
  split_ifs with hlt
  · apply UInt8.toNat_inj.mp
    have hhighzero := UInt8.toNat_inj.mpr (hcond.mpr hlt).2
    rw [UInt16.toNat_toUInt8, hunit, hhighzero]
    change _ = (_ + 256 * 0) % 256
    omega
  · rfl

/-- The string in a buffer that holds it and a zero. -/
theorem cString_eq {buf : ℕ → UInt8} {s : Str} {n : ℕ} (hlen : s.length < n)
    (hs : ∀ i (h : i < s.length), buf i = s[i]) (hne : ∀ c ∈ s, c ≠ 0) (hend : buf s.length = 0) :
    cString buf n = s := by
  obtain ⟨k, rfl⟩ := Nat.exists_eq_add_of_lt hlen
  have hfirst : (List.range s.length).map buf = s := by
    apply List.ext_getElem
    · simp
    · intro i hi hi'
      rw [List.getElem_map, List.getElem_range, hs i hi']
  have hrest : (List.range (s.length + (k + 1))).map buf =
      s ++ buf s.length :: (List.range k).map fun i => buf (s.length + (i + 1)) := by
    rw [List.range_add, List.map_append, hfirst, List.map_map, List.range_succ_eq_map,
      List.map_cons, List.map_map]
    rfl
  have hne' : ∀ c ∈ s, decide (c ≠ 0) = true := by simpa using hne
  rw [cString, Nat.add_assoc, hrest, List.takeWhile_append_of_pos hne', hend]
  simp

/-! ## A long name on the disk -/

/-- A long name: up to 255 units. -/
structure LongName where
  units : List UInt16
  pos : 0 < units.length
  le : units.length ≤ 255
  nonzero : ∀ u ∈ units, u ≠ 0

namespace LongName

/-- The number of records that hold it. -/
def parts (l : LongName) : ℕ := (l.units.length + 12) / 13

/-- Unit `i` on the disk: after the name a zero, and ones up to the end of its record. -/
def stored (l : LongName) (i : ℕ) : UInt16 :=
  if i = l.units.length then 0 else l.units.getD i 0xFFFF

/-- The name in characters. -/
def text (l : LongName) : Str := l.units.map asciiOf

/-- Record number `k` of the name in front of `r`. -/
structure Part (l : LongName) (r : Record) (k : ℕ) (part : Record) : Prop where
  attr : part.attr &&& attrLfn = attrLfn
  order : part 0 = UInt8.ofNat k ||| if k = l.parts then 0x40 else 0
  checksum : part 13 = r.checksum
  units : ∀ i < 13, part.unit i = l.stored (13 * (k - 1) + i)

/-- The records with the numbers `k` to 1. -/
inductive Parts (l : LongName) (r : Record) : ℕ → List Record → Prop
  | done : Parts l r 0 []
  | next {k : ℕ} {part : Record} {rest : List Record} :
    l.Part r (k + 1) part → Parts l r k rest → Parts l r (k + 1) (part :: rest)

variable {l : LongName} {r part : Record} {k : ℕ} {lfn : Lfn}

theorem parts_pos (l : LongName) : 0 < l.parts := by
  have hpos := l.pos
  unfold parts
  omega

theorem parts_le (l : LongName) : l.parts ≤ 20 := by
  have hle := l.le
  unfold parts
  omega

theorem length_text (l : LongName) : l.text.length = l.units.length := List.length_map _

theorem text_ne_zero (l : LongName) : ∀ c ∈ l.text, c ≠ 0 := by
  intro c hc
  obtain ⟨u, hu, rfl⟩ := List.mem_map.mp hc
  exact asciiOf_ne_zero (l.nonzero u hu)

theorem parts_map {f : ℕ → Record} (h : ∀ j < k, l.Part r (k - j) (f j)) :
    l.Parts r k ((List.range k).map f) := by
  induction k generalizing f with
  | zero => exact .done
  | succ k ih =>
    rw [List.range_succ_eq_map, List.map_cons, List.map_map]
    refine .next (h 0 k.succ_pos) (ih fun j hj => ?_)
    have hnext := h (j + 1) (Nat.succ_lt_succ hj)
    rwa [Nat.succ_sub_succ] at hnext

/-! ## One record -/

theorem order_low : ∀ k ≤ 20, (UInt8.ofNat k ||| 0x40) &&& 0x3F = UInt8.ofNat k ∧
    (UInt8.ofNat k ||| 0) &&& 0x3F = UInt8.ofNat k := by
  decide

theorem order_last : ∀ k ≤ 20, (UInt8.ofNat k ||| 0x40) &&& 0x40 ≠ 0 ∧
    (UInt8.ofNat k ||| 0) &&& 0x40 = 0 := by
  decide

namespace Part

theorem low (h : l.Part r (k + 1) part) (hk : k + 1 ≤ l.parts) :
    ((part 0 &&& 0x3F).toNat - 1 : ℤ) * 13 = (13 * k : ℕ) := by
  have hle := l.parts_le
  have hboth := order_low (k + 1) (by omega)
  have hlow : part 0 &&& 0x3F = UInt8.ofNat (k + 1) := by
    rw [h.order]
    split_ifs
    · exact hboth.1
    · exact hboth.2
  rw [hlow, UInt8.toNat_ofNat', Nat.mod_eq_of_lt (by omega)]
  push_cast
  omega

theorem last (h : l.Part r k part) (hk : k ≤ l.parts) : part 0 &&& 0x40 ≠ 0 ↔ k = l.parts := by
  have hle := l.parts_le
  have hboth := order_last k (by omega)
  rw [h.order]
  split_ifs with hlast
  · exact iff_of_true hboth.1 hlast
  · exact iff_of_false (not_not.mpr hboth.2) hlast

theorem first_ne_zero (h : l.Part r (k + 1) part) (hk : k + 1 ≤ l.parts) : part 0 ≠ 0 := by
  intro hzero
  have hlow := h.low hk
  rw [hzero] at hlow
  simp at hlow
  omega

theorem char (h : l.Part r (k + 1) part) {i : ℕ} (hi : 13 * k ≤ i ∧ i < 13 * k + 13) :
    Lfn.char part (i - 13 * k) = asciiOf (l.stored i) := by
  have hindex : 13 * (k + 1 - 1) + (i - 13 * k) = i := by omega
  rw [lfnChar_eq, h.units _ (by omega), hindex]

theorem add_checksum (h : l.Part r (k + 1) part) (hk : k + 1 ≤ l.parts) :
    (lfn.add part).checksum = if k + 1 = l.parts then (r.checksum.toNat : ℤ) else lfn.checksum := by
  unfold Lfn.add
  simp only [h.last hk, h.checksum]
  split_ifs <;> rfl

/-- Record 20 is passed over. -/
theorem add_buf (h : l.Part r (k + 1) part) (hk : k + 1 ≤ l.parts) (i : ℕ) :
    (lfn.add part).buf i =
      if 13 * k ≤ i ∧ i < 13 * k + 13 ∧ i < 247 then asciiOf (l.stored i)
      else if k + 1 = l.parts then 0 else lfn.buf i := by
  have hle := l.parts_le
  have hbase : (if k + 1 = l.parts then (⟨fun _ => 0, (part 13).toNat⟩ : Lfn) else lfn).buf i =
      if k + 1 = l.parts then 0 else lfn.buf i := by
    split_ifs <;> rfl
  unfold Lfn.add
  simp only [h.last hk, h.low hk, Int.toNat_natCast]
  by_cases hwritten : (0 : ℤ) ≤ (13 * k : ℕ) ∧ ((13 * k : ℕ) : ℤ) < 242
  · rw [if_pos hwritten]
    by_cases hi : 13 * k ≤ i ∧ i < 13 * k + 13
    · have hi' : 13 * k ≤ i ∧ i < 13 * k + 13 ∧ i < 247 := by omega
      rw [if_pos hi']
      exact (if_pos hi).trans (h.char hi)
    · have hi' : ¬ (13 * k ≤ i ∧ i < 13 * k + 13 ∧ i < 247) := by omega
      rw [if_neg hi']
      exact (if_neg hi).trans hbase
  · have hi' : ¬ (13 * k ≤ i ∧ i < 13 * k + 13 ∧ i < 247) := by omega
    rw [if_neg hwritten, if_neg hi']
    exact hbase

end Part

/-! ## A whole name -/

/-- The state of a scan when the records with the numbers `k` to 1 are still to come. -/
structure Reading (l : LongName) (r : Record) (k : ℕ) (lfn : Lfn) : Prop where
  checksum : lfn.checksum = r.checksum.toNat
  buf : ∀ i, lfn.buf i =
    if 13 * k ≤ i ∧ i < 13 * l.parts ∧ i < 247 then asciiOf (l.stored i) else 0

theorem reading_first (h : l.Part r (k + 1) part) (hk : k + 1 = l.parts) (lfn : Lfn) :
    l.Reading r k (lfn.add part) := by
  constructor
  · rw [h.add_checksum hk.le, if_pos hk]
  · intro i
    have hend : 13 * l.parts = 13 * k + 13 := by rw [← hk, Nat.mul_succ]
    rw [h.add_buf hk.le, if_pos hk, hend]

theorem Reading.next (hlfn : l.Reading r (k + 1) lfn) (h : l.Part r (k + 1) part)
    (hk : k + 1 < l.parts) : l.Reading r k (lfn.add part) := by
  constructor
  · rw [h.add_checksum hk.le, if_neg hk.ne, hlfn.checksum]
  · intro i
    rw [h.add_buf hk.le, if_neg hk.ne, hlfn.buf]
    by_cases hi : 13 * k ≤ i ∧ i < 13 * k + 13 ∧ i < 247
    · rw [if_pos hi, if_pos (by omega)]
    · rw [if_neg hi]
      apply if_congr _ rfl rfl
      omega

theorem Reading.run {set : List Record} (hlfn : l.Reading r k lfn) (hset : l.Parts r k set)
    (hk : k < l.parts) : l.Reading r 0 (set.foldl Lfn.add lfn) := by
  induction hset generalizing lfn with
  | done => exact hlfn
  | next hpart _ ih => exact ih (hlfn.next hpart hk) (Nat.lt_of_succ_lt hk)

/-- The state after all the records, whatever was read before them. -/
theorem Parts.read {set : List Record} (hset : l.Parts r l.parts set) (lfn : Lfn) :
    l.Reading r 0 (set.foldl Lfn.add lfn) := by
  generalize hn : l.parts = n at hset
  cases hset with
  | done => exact absurd hn l.parts_pos.ne'
  | next hpart hrest =>
    rename_i k part rest
    have hk : k < l.parts := by omega
    exact (reading_first hpart hn.symm lfn).run hrest hk

namespace Reading

theorem buf_of_lt (h : l.Reading r 0 lfn) {i : ℕ} (hi : i < l.units.length) (hlt : i < 247) :
    lfn.buf i = asciiOf l.units[i] := by
  have hparts : i < 13 * l.parts := by
    unfold parts
    omega
  rw [h.buf, if_pos (by omega), stored, if_neg hi.ne, List.getD_eq_getElem _ _ hi]

theorem valid (h : l.Reading r 0 lfn) : lfn.Valid r := by
  have hpos := l.pos
  refine ⟨?_, h.checksum.symm⟩
  rw [h.buf_of_lt hpos (by norm_num)]
  exact asciiOf_ne_zero (l.nonzero _ (List.getElem_mem hpos))

/-- The buffer ends at 247 characters. -/
theorem name (h : l.Reading r 0 lfn) : lfn.name = l.text.take 247 := by
  have hlength : (l.text.take 247).length = min 247 l.units.length := by
    rw [List.length_take, l.length_text]
  unfold Lfn.name
  apply cString_eq
  · rw [hlength]
    omega
  · intro i hi
    rw [hlength] at hi
    rw [List.getElem_take, h.buf_of_lt (by omega) (by omega)]
    exact (List.getElem_map _).symm
  · intro c hc
    exact l.text_ne_zero c (List.mem_of_mem_take hc)
  · rw [hlength, h.buf]
    by_cases hlong : 247 ≤ l.units.length
    · rw [if_neg (by omega)]
    · have hmin : min 247 l.units.length = l.units.length := by omega
      rw [hmin, stored, if_pos rfl]
      exact ite_self 0

end Reading
end LongName

end Rhoudveine.Fat32
