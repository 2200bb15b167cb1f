import Rhoudveine.Lib.Reading
import Rhoudveine.Drivers.Acpi

/-!
# The scan for the `_S5_` object

Method 3 of `acpi_shutdown`: it looks for the package of `_S5_` in the bytes of the DSDT and writes
the sleep types that it finds there to the PM1 control blocks.
-/

namespace Rhoudveine.Acpi
open LittleEndian Reading

/-! ## The code -/

/-- The fields of `struct fadt` that the scan uses. -/
structure Fadt where
  dsdt : UInt32
  pm1aControlBlock : UInt32
  pm1bControlBlock : UInt32

/-- `custom_memcmp(p, s, n) == 0`: it returns at the first byte that differs. -/
def customMemcmp (p : ℕ) : (s : List UInt8) → Reading Bool
  | [] => pure true
  | c :: s => do
    if (← read p) = c then customMemcmp (p + 1) s else pure false

/-- `"DSDT"`. -/
def dsdtSignature : List UInt8 := [0x44, 0x53, 0x44, 0x54]

/-- `"_S5_"`. -/
def s5Name : List UInt8 := [0x5F, 0x53, 0x35, 0x5F]

/-- What is made of an element of the package: `slp_typa` or `slp_typb`, whether `valid` goes up,
and the next `data`. -/
structure Element where
  slpTyp : UInt16
  valid : Bool
  next : ℕ

def readElement (data : ℕ) : Reading Element := do
  let op ← read data
  if op = 0x0A then
    let value ← read (data + 1)
    pure ⟨value.toUInt16, true, data + 2⟩
  else if op = 0x00 then pure ⟨0, true, data + 1⟩
  else if op = 0x01 then pure ⟨1, true, data + 1⟩
  else pure ⟨0, false, data⟩

/-- `pkg_len_bytes`: the number of bytes behind the first one of a length. -/
def pkgLenBytes (pkgLenFirst : UInt8) : ℕ := ((pkgLenFirst >>> 6) &&& 3).toNat

/-- One round of the scan, with the two types if `valid >= 2`. -/
def lookAt (p : ℕ) : Reading (Option (UInt16 × UInt16)) := do
  if ← customMemcmp p s5Name then
    let pkg := p + 4
    if (← read pkg) = 0x12 then
      let pkgLenFirst ← read (pkg + 1)
      -- the last byte skipped is NumElements
      let data := pkg + 2 + pkgLenBytes pkgLenFirst + 1
      let a ← readElement data
      let b ← readElement a.next
      if a.valid && b.valid then pure (some (a.slpTyp, b.slpTyp)) else pure none
    else pure none
  else pure none

/-- The `while` loop over the last `count` bytes of the table, up to a package that is taken. -/
def scan : (count : ℕ) → (p : ℕ) → Reading (Option (UInt16 × UInt16))
  | 0, _ => pure none
  | count + 1, p => do
    match ← lookAt p with
    | some types => pure (some types)
    | none => scan count (p + 1)

/-- `sizeof(struct acpi_sdt_header)`. -/
def sdtHeaderLength : ℕ := 36

def scanDsdt (dsdt : ℕ) : Reading (Option (UInt16 × UInt16)) := do
  if ← customMemcmp dsdt dsdtSignature then
    let length ← readLe (dsdt + 4) 4
    scan (length - sdtHeaderLength) (dsdt + sdtHeaderLength)
  else pure none

/-- `outw` of a sleep type and `SLP_EN` to a control block that exists: the port and the value. -/
def sleepWrite (block : UInt32) (slpTyp : UInt16) : List (UInt16 × UInt16) :=
  if block ≠ 0 then [(block.toUInt16, slpTyp <<< 10 ||| (1 : UInt16) <<< 13)] else []

/-- What the scan writes before it halts the machine. -/
def scanWrites (mem : ℕ → UInt8) (fadt : Fadt) : List (UInt16 × UInt16) :=
  if fadt.dsdt ≠ 0 then
    match run mem (scanDsdt fadt.dsdt.toNat) with
    | some (slpTypa, slpTypb) =>
      sleepWrite fadt.pm1aControlBlock slpTypa ++ sleepWrite fadt.pm1bControlBlock slpTypb
    | none => []
  else []

/-! ## Tables with an `_S5_` package -/

/-- The encodings of an integer that the comment of the scan lists. -/
inductive Integer
  | zeroOp
  | oneOp
  | bytePrefix (value : UInt8)
  | wordPrefix (value : UInt16)
  | dwordPrefix (value : UInt32)
  deriving DecidableEq, Repr

namespace Integer

def value : Integer → ℕ
  | zeroOp => 0
  | oneOp => 1
  | bytePrefix value => value.toNat
  | wordPrefix value => value.toNat
  | dwordPrefix value => value.toNat

def encode : Integer → List UInt8
  | zeroOp => [0x00]
  | oneOp => [0x01]
  | bytePrefix value => [0x0A, value]
  | wordPrefix value => 0x0B :: (List.range 2).map (leByte value.toNat)
  | dwordPrefix value => 0x0C :: (List.range 4).map (leByte value.toNat)

/-- The encodings that the scan decodes. -/
def IsShort : Integer → Prop
  | zeroOp | oneOp | bytePrefix _ => True
  | wordPrefix _ | dwordPrefix _ => False

instance (x : Integer) : Decidable x.IsShort :=
  match x with
  | zeroOp | oneOp | bytePrefix _ => isTrue trivial
  | wordPrefix _ | dwordPrefix _ => isFalse id

theorem one_le_length_encode (x : Integer) : 1 ≤ x.encode.length := by
  cases x <;> simp [encode]

end Integer

/-- The bytes of a DSDT in which the name `_S5_` occurs once, with a package behind it that begins
with two sleep types; the length of the package takes up to four bytes. -/
structure S5Table where
  before : List UInt8
  lead : UInt8
  lengthBytes : List UInt8
  numElements : UInt8
  a : Integer
  b : Integer
  rest : List UInt8

namespace S5Table

/-- What follows the name. -/
def package (t : S5Table) : List UInt8 :=
  0x12 :: t.lead :: (t.lengthBytes ++ t.numElements :: (t.a.encode ++ t.b.encode ++ t.rest))

def bytes (t : S5Table) : List UInt8 := t.before ++ (s5Name ++ t.package)

structure WellFormed (t : S5Table) : Prop where
  signature : dsdtSignature <+: t.bytes
  length : le (fun i => t.bytes.getD i 0) 4 4 = t.bytes.length
  lead : t.lengthBytes.length = pkgLenBytes t.lead
  once : ∀ i, s5Name <+: t.bytes.drop i → i = t.before.length
  a_lt : t.a.value < 8
  b_lt : t.b.value < 8

end S5Table

/-- A write of the claimed value to a control block that exists. -/
def sleepWriteOf (block : UInt32) (v : ℕ) : List (UInt16 × UInt16) :=
  if block ≠ 0 then [(block.toUInt16, UInt16.ofNat (v <<< 10 ||| 1 <<< 13))] else []

/-- Wherever the table is, and whatever is behind it, the scan writes the two sleep types. -/
def WritesRight (t : S5Table) : Prop :=
  ∀ (mem : ℕ → UInt8) (fadt : Fadt), fadt.dsdt ≠ 0 → HoldsAt mem fadt.dsdt.toNat t.bytes →
    scanWrites mem fadt = sleepWriteOf fadt.pm1aControlBlock t.a.value ++
      sleepWriteOf fadt.pm1bControlBlock t.b.value

/-- A table with the signature of a DSDT. -/
structure Dsdt where
  mem : ℕ → UInt8
  address : ℕ
  signature : HoldsAt mem address dsdtSignature

namespace Dsdt

/-- `header.length`. -/
def length (d : Dsdt) : ℕ := le d.mem (d.address + 4) 4

/-- The bytes behind the header. -/
def contents (d : Dsdt) : List UInt8 :=
  (List.range (d.length - sdtHeaderLength)).map fun i => d.mem (d.address + sdtHeaderLength + i)

def ReadsInside (d : Dsdt) : Prop :=
  ∀ a ∈ reads d.mem (scanDsdt d.address), d.address ≤ a ∧ a < d.address + d.length

end Dsdt

/-- Whether the bytes begin with an integer that is decoded, and what is behind it; `none` if they
end before that is decided. -/
def splitElement : List UInt8 → Option (Bool × List UInt8)
  | [] => none
  | op :: rest =>
    if op = 0x0A then rest.head?.map fun _ => (true, rest.tail)
    else if op = 0x00 ∨ op = 0x01 then some (true, rest)
    else some (false, op :: rest)

/-- Whether a package with two decoded integers follows a name; `none` if the bytes end before that
is decided. -/
def splitPackage : List UInt8 → Option Bool
  | [] => none
  | op :: rest =>
    if op = 0x12 then
      rest.head?.bind fun lead =>
        (splitElement (rest.drop (pkgLenBytes lead + 2))).bind fun a =>
          (splitElement a.2).map fun b => a.1 && b.1
    else some false

/-- The bytes do not end in the beginning of a name, and after every name up to that of the first
package which is taken they go on as far as its two integers. -/
inductive Complete : List UInt8 → Prop
  | nil : Complete []
  | other {b : UInt8} {rest : List UInt8} : ¬ s5Name <+: b :: rest → ¬ b :: rest <+: s5Name →
    Complete rest → Complete (b :: rest)
  | passed {rest : List UInt8} : splitPackage rest = some false → Complete (s5Name.tail ++ rest) →
    Complete (s5Name ++ rest)
  | taken {rest : List UInt8} : splitPackage rest = some true → Complete (s5Name ++ rest)

/-! ## A round of the scan -/

variable {mem : ℕ → UInt8} {p d i n : ℕ} {s bytes : List UInt8} {types : UInt16 × UInt16}

theorem holdsAt_nil : HoldsAt mem p [] := fun i b h => by simp at h

theorem holdsAt_cons {b : UInt8} : HoldsAt mem p (b :: s) ↔ mem p = b ∧ HoldsAt mem (p + 1) s := by
  constructor
  · intro h
    exact ⟨h 0 b rfl, HoldsAt.right (show HoldsAt mem p ([b] ++ s) from h)⟩
  · rintro ⟨hfirst, hrest⟩ i c hc
    cases i with
    | zero => simpa [← hfirst] using hc
    | succ i =>
      rw [Nat.add_comm i 1, ← Nat.add_assoc]
      exact hrest i c (by simpa using hc)

theorem run_customMemcmp : run mem (customMemcmp p s) = true ↔ HoldsAt mem p s := by
  induction s generalizing p with
  | nil => simp [customMemcmp, holdsAt_nil]
  | cons c s ih =>
    rw [holdsAt_cons, ← ih, customMemcmp]
    by_cases hc : mem p = c
    · simp [hc]
    · simp [hc]

theorem run_lookAt_of_not (h : ¬ HoldsAt mem p s5Name) : run mem (lookAt p) = none := by
  rw [← run_customMemcmp] at h
  simp [lookAt, h]

theorem run_readElement_short {x : Integer} (h : HoldsAt mem p x.encode) (hshort : x.IsShort) :
    run mem (readElement p) = ⟨UInt16.ofNat x.value, true, p + x.encode.length⟩ := by
  cases x with
  | zeroOp => simp [readElement, (holdsAt_cons.mp h).1, Integer.value, Integer.encode]
  | oneOp => simp [readElement, (holdsAt_cons.mp h).1, Integer.value, Integer.encode]
  | bytePrefix v =>
    obtain ⟨hop, hvalue⟩ := holdsAt_cons.mp h
    simp [readElement, hop, (holdsAt_cons.mp hvalue).1, Integer.value, Integer.encode]
  | wordPrefix v => exact hshort.elim
  | dwordPrefix v => exact hshort.elim

theorem run_readElement_long {x : Integer} (h : HoldsAt mem p x.encode) (hlong : ¬ x.IsShort) :
    run mem (readElement p) = ⟨0, false, p⟩ := by
  cases x with
  | zeroOp => exact (hlong trivial).elim
  | oneOp => exact (hlong trivial).elim
  | bytePrefix v => exact (hlong trivial).elim
  | wordPrefix v => simp [readElement, (holdsAt_cons.mp h).1]
  | dwordPrefix v => simp [readElement, (holdsAt_cons.mp h).1]

/-- Both elements count only in an encoding that is decoded. -/
theorem run_lookAt_package {t : S5Table} (ht : t.WellFormed)
    (h : HoldsAt mem p (s5Name ++ t.package)) :
    run mem (lookAt p) = if t.a.IsShort ∧ t.b.IsShort then
      some (UInt16.ofNat t.a.value, UInt16.ofNat t.b.value) else none := by
  have hname : run mem (customMemcmp p s5Name) = true := run_customMemcmp.mpr h.left
  obtain ⟨hop, hpackage⟩ := holdsAt_cons.mp h.right
  obtain ⟨hlead, hpackage⟩ := holdsAt_cons.mp hpackage
  obtain ⟨-, helements⟩ := holdsAt_cons.mp hpackage.right
  have ha := helements.left.left
  have hb := helements.left.right
  have hskip : pkgLenBytes (mem (p + 4 + 1)) = t.lengthBytes.length := by
    rw [ht.lead, ← hlead]
    rfl
  have hdata : p + s5Name.length + 1 + 1 + t.lengthBytes.length + 1 =
      p + 4 + 2 + t.lengthBytes.length + 1 := by
    simp only [s5Name, List.length_cons, List.length_nil]
  rw [hdata] at ha hb
  simp only [lookAt, run_bind, hname, if_true, run_read, show mem (p + 4) = 0x12 from hop, hskip]
  by_cases hashort : t.a.IsShort
  · rw [run_readElement_short ha hashort]
    by_cases hbshort : t.b.IsShort
    · rw [run_readElement_short hb hbshort]
      simp [hashort, hbshort]
    · rw [run_readElement_long hb hbshort]
      simp [hbshort]
  · rw [run_readElement_long ha hashort]
    simp [hashort]

/-! ## The whole scan -/

theorem run_scan_none (h : ∀ i < n, run mem (lookAt (p + i)) = none) :
    run mem (scan n p) = none := by
  induction n generalizing p with
  | zero => rfl
  | succ n ih =>
    have hfirst := h 0 (Nat.succ_pos n)
    rw [Nat.add_zero] at hfirst
    simp only [scan, run_bind, hfirst]
    apply ih
    intro i hi
    rw [Nat.add_assoc, Nat.add_comm 1 i]
    exact h (i + 1) (by omega)

theorem run_scan_some (hi : i < n) (h : ∀ k < i, run mem (lookAt (p + k)) = none)
    (hfound : run mem (lookAt (p + i)) = some types) : run mem (scan n p) = some types := by
  induction n generalizing p i with
  | zero => omega
  | succ n ih =>
    cases i with
    | zero =>
      rw [Nat.add_zero] at hfound
      simp [scan, hfound]
    | succ i =>
      have hfirst := h 0 (Nat.succ_pos i)
      rw [Nat.add_zero] at hfirst
      simp only [scan, run_bind, hfirst]
      have hshift : ∀ k, p + 1 + k = p + (k + 1) := fun k => by omega
      refine ih (i := i) (by omega) (fun k hk => ?_) ?_
      · rw [hshift]
        exact h (k + 1) (by omega)
      · rw [hshift]
        exact hfound

theorem holdsAt_of_start (h : HoldsAt mem p bytes) (hs : s <+: bytes) : HoldsAt mem p s := by
  obtain ⟨rest, rfl⟩ := hs
  exact h.left

/-- What memory holds in the table is in the table. -/
theorem prefix_drop_of_holdsAt (h : HoldsAt mem d bytes) (hs : HoldsAt mem (d + i) s)
    (hlen : i + s.length ≤ bytes.length) : s <+: bytes.drop i := by
  rw [List.prefix_iff_getElem?]
  intro k hk
  rw [List.getElem?_drop, List.getElem?_eq_getElem (by omega : i + k < bytes.length)]
  have hmem := h (i + k) _ (List.getElem?_eq_getElem (by omega))
  have hname := hs k _ (List.getElem?_eq_getElem hk)
  rw [← hmem, ← hname, Nat.add_assoc]

theorem prefix_or_of_holdsAt (h : HoldsAt mem p bytes) (hs : HoldsAt mem p s) :
    bytes <+: s ∨ s <+: bytes := by
  rcases le_total bytes.length s.length with hle | hle
  · exact Or.inl (prefix_drop_of_holdsAt (i := 0) hs h (by omega))
  · exact Or.inr (prefix_drop_of_holdsAt (i := 0) h hs (by omega))

theorem S5Table.length_bytes (t : S5Table) : t.before.length + 9 ≤ t.bytes.length := by
  have ha := t.a.one_le_length_encode
  have hb := t.b.one_le_length_encode
  simp only [S5Table.bytes, S5Table.package, s5Name, List.length_append, List.length_cons,
    List.length_nil]
  omega

theorem run_scanDsdt {t : S5Table} (ht : t.WellFormed) (h : HoldsAt mem d t.bytes) :
    run mem (scanDsdt d) =
      run mem (scan (t.bytes.length - sdtHeaderLength) (d + sdtHeaderLength)) := by
  have hsignature := run_customMemcmp.mpr (holdsAt_of_start h ht.signature)
  have hlong := t.length_bytes
  have hlength : le mem (d + 4) 4 = t.bytes.length := by
    rw [← ht.length]
    apply le_congr
    intro k hk
    have hbyte := h (4 + k) _ (List.getElem?_eq_getElem (by omega))
    rw [Nat.add_assoc, hbyte, List.getD_eq_getElem _ _ (by omega)]
  simp only [scanDsdt, run_bind, hsignature, if_true, run_readLe, hlength]

theorem sleepWrite_eq (block : UInt32) {v : ℕ} (hv : v < 8) :
    sleepWrite block (UInt16.ofNat v) = sleepWriteOf block v := by
  have hvalue : UInt16.ofNat v <<< 10 ||| (1 : UInt16) <<< 13 =
      UInt16.ofNat (v <<< 10 ||| 1 <<< 13) := by
    interval_cases v <;> rfl
  rw [sleepWrite, sleepWriteOf, hvalue]

theorem not_holdsAt_before {t : S5Table} (ht : t.WellFormed) (h : HoldsAt mem d t.bytes)
    (hi : i < t.before.length) : ¬ HoldsAt mem (d + i) s5Name := by
  intro hname
  have hlong := t.length_bytes
  have hat := ht.once i (prefix_drop_of_holdsAt h hname (by
    simp only [s5Name, List.length_cons, List.length_nil]
    omega))
  omega

theorem writesRight_of_short {t : S5Table} (ht : t.WellFormed)
    (hbefore : sdtHeaderLength ≤ t.before.length) (ha : t.a.IsShort) (hb : t.b.IsShort) :
    WritesRight t := by
  intro mem fadt hdsdt h
  have hlong := t.length_bytes
  have hfound : run mem (scanDsdt fadt.dsdt.toNat) =
      some (UInt16.ofNat t.a.value, UInt16.ofNat t.b.value) := by
    rw [run_scanDsdt ht h]
    have hshift : ∀ k, fadt.dsdt.toNat + sdtHeaderLength + k =
        fadt.dsdt.toNat + (sdtHeaderLength + k) := fun k => Nat.add_assoc ..
    refine run_scan_some (i := t.before.length - sdtHeaderLength) (by omega) (fun k hk => ?_) ?_
    · rw [hshift]
      exact run_lookAt_of_not (not_holdsAt_before ht h (by omega))
    · rw [hshift, Nat.add_sub_cancel' hbefore, run_lookAt_package ht h.right, if_pos ⟨ha, hb⟩]
  rw [scanWrites, if_pos hdsdt, hfound]
  simp only [sleepWrite_eq _ ht.a_lt, sleepWrite_eq _ ht.b_lt]

/-- A machine with the table at 4096, zeroes behind it and one control block. -/
def oneBlock : Fadt := ⟨4096, 0x404, 0⟩

def tableAt (bytes : List UInt8) (i : ℕ) : UInt8 := bytes.getD (i - 4096) 0

theorem holdsAt_tableAt (bytes : List UInt8) : HoldsAt (tableAt bytes) 4096 bytes := by
  intro i b hb
  rw [tableAt, Nat.add_sub_cancel_left, List.getD_eq_getElem?_getD, hb, Option.getD_some]

/-- Without a byte of the name behind the table, the name is found only in it. -/
theorem prefix_of_tableAt (h : HoldsAt (tableAt bytes) (4096 + i) s5Name) :
    s5Name <+: bytes.drop i := by
  apply prefix_drop_of_holdsAt (holdsAt_tableAt bytes) h
  by_contra hshort
  have hlast := h 3 0x5F rfl
  rw [tableAt, Nat.add_assoc, Nat.add_sub_cancel_left, List.getD_eq_default _ _ (by
    simp only [s5Name, List.length_cons, List.length_nil] at hshort
    omega)] at hlast
  cases hlast

theorem short_of_writesRight {t : S5Table} (ht : t.WellFormed) (h : WritesRight t) :
    sdtHeaderLength ≤ t.before.length ∧ t.a.IsShort ∧ t.b.IsShort := by
  by_contra hnot
  have hholds := holdsAt_tableAt t.bytes
  have hnone : run (tableAt t.bytes) (scanDsdt 4096) = none := by
    rw [run_scanDsdt ht hholds]
    apply run_scan_none
    intro i _
    rw [Nat.add_assoc]
    by_cases hname : HoldsAt (tableAt t.bytes) (4096 + (sdtHeaderLength + i)) s5Name
    · have hat := ht.once _ (prefix_of_tableAt hname)
      rw [hat, run_lookAt_package ht hholds.right]
      apply if_neg
      intro hshort
      exact hnot ⟨by omega, hshort⟩
    · exact run_lookAt_of_not hname
  have hwrites := h (tableAt t.bytes) oneBlock (by decide) hholds
  rw [scanWrites, if_pos (by decide), show oneBlock.dsdt.toNat = 4096 from rfl, hnone] at hwrites
  simp [sleepWriteOf, oneBlock] at hwrites

/-! ## The reads -/

theorem reads_customMemcmp_ge {a : ℕ} (h : a ∈ reads mem (customMemcmp p s)) : p ≤ a := by
  induction s generalizing p with
  | nil => simp [customMemcmp] at h
  | cons c s ih =>
    by_cases hc : mem p = c
    · rcases (show a = p ∨ a ∈ reads mem (customMemcmp (p + 1) s) by
        simpa [customMemcmp, hc] using h) with rfl | h
      · exact le_rfl
      · exact (Nat.le_succ p).trans (ih h)
    · exact (show a = p by simpa [customMemcmp, hc] using h).ge

/-- The comparison stays in the bytes unless they end in it. -/
theorem reads_customMemcmp_lt (h : HoldsAt mem p bytes) :
    (∀ a ∈ reads mem (customMemcmp p s), a < p + bytes.length) ↔
      ¬ (bytes <+: s ∧ bytes.length < s.length) := by
  induction s generalizing p bytes with
  | nil => simp [customMemcmp]
  | cons c s ih =>
    cases bytes with
    | nil => simp [customMemcmp]
    | cons b bytes =>
      obtain ⟨hb, hrest⟩ := holdsAt_cons.mp h
      simp only [customMemcmp, reads_bind, reads_read, run_read, List.singleton_append, hb,
        List.cons_prefix_cons, List.length_cons, List.forall_mem_cons]
      by_cases hc : b = c
      · have hshift : p + (bytes.length + 1) = p + 1 + bytes.length := by omega
        simp [hc, hshift, ih hrest]
        omega
      · simp [hc]

theorem holdsAt_drop (h : HoldsAt mem p bytes) (n : ℕ) : HoldsAt mem (p + n) (bytes.drop n) := by
  intro i b hb
  rw [Nat.add_assoc]
  exact h (n + i) b (by simpa using hb)

theorem readElement_outside (h : HoldsAt mem p bytes) (hsplit : splitElement bytes = none) :
    ∃ a ∈ reads mem (readElement p), p + bytes.length ≤ a := by
  cases bytes with
  | nil => exact ⟨p, by simp [readElement], le_rfl⟩
  | cons op rest =>
    obtain ⟨hop, -⟩ := holdsAt_cons.mp h
    rw [splitElement] at hsplit
    split_ifs at hsplit with hprefix
    have hend : rest = [] := by simpa using hsplit
    exact ⟨p + 1, by simp [readElement, hop, hprefix], by simp [hend]⟩

/-- What the bytes say about an element is what is made of it. -/
structure ElementAt (mem : ℕ → UInt8) (p : ℕ) (bytes : List UInt8) (valid : Bool)
    (rest : List UInt8) : Prop where
  reads : ∀ a ∈ reads mem (readElement p), a < p + bytes.length
  valid : (run mem (readElement p)).valid = valid
  next : (run mem (readElement p)).next + rest.length = p + bytes.length
  rest : HoldsAt mem (run mem (readElement p)).next rest

theorem readElement_inside {valid : Bool} {rest : List UInt8} (h : HoldsAt mem p bytes)
    (hsplit : splitElement bytes = some (valid, rest)) : ElementAt mem p bytes valid rest := by
  cases bytes with
  | nil => cases hsplit
  | cons op tail =>
    obtain ⟨hop, htail⟩ := holdsAt_cons.mp h
    rw [splitElement] at hsplit
    split_ifs at hsplit with hbyte hshort
    · obtain ⟨v, hv, heq⟩ := Option.map_eq_some_iff.mp hsplit
      obtain ⟨rfl, rfl⟩ := Prod.mk.inj heq
      obtain ⟨tail', rfl⟩ := List.head?_eq_some_iff.mp hv
      have hrest := (holdsAt_cons.mp htail).2
      constructor <;> simp [readElement, hop, hbyte]
      · omega
      · exact hrest
    · obtain ⟨rfl, rfl⟩ := Prod.mk.inj (Option.some.inj hsplit)
      rcases hshort with hzero | hone
      · constructor <;> simp [readElement, hop, hzero, htail]
        omega
      · constructor <;> simp [readElement, hop, hone, htail]
        omega
    · obtain ⟨rfl, rfl⟩ := Prod.mk.inj (Option.some.inj hsplit)
      rw [not_or] at hshort
      constructor <;> simp [readElement, hop, hbyte, hshort, h]

/-- What a look at a name with these bytes behind it reads. -/
theorem reads_lookAt_name (h : HoldsAt mem p (s5Name ++ bytes)) :
    reads mem (lookAt p) = reads mem (customMemcmp p s5Name) ++ (p + 4) ::
      if mem (p + 4) = 0x12 then
        let data := p + 4 + 2 + pkgLenBytes (mem (p + 5)) + 1
        (p + 5) :: (reads mem (readElement data) ++
          reads mem (readElement (run mem (readElement data)).next))
      else [] := by
  have hname : run mem (customMemcmp p s5Name) = true := run_customMemcmp.mpr h.left
  by_cases hop : mem (p + 4) = 0x12
  · have hif : ∀ (b : Bool) (x : Option (UInt16 × UInt16)),
        reads mem (if b = true then pure x else pure none) = [] := fun b x => by
      cases b <;> rfl
    simp only [lookAt, reads_bind, hname, reads_read, run_read, hop, hif,
      List.append_nil, List.singleton_append, if_true]
  · simp [lookAt, hname, hop]

/-- Where the elements of a package are looked for. -/
theorem holdsAt_elements {op lead : UInt8} {tail : List UInt8}
    (h : HoldsAt mem p (s5Name ++ op :: lead :: tail)) :
    mem (p + 4) = op ∧ mem (p + 5) = lead ∧
      HoldsAt mem (p + 4 + 2 + pkgLenBytes lead + 1)
        ((lead :: tail).drop (pkgLenBytes lead + 2)) := by
  obtain ⟨hop, hrest⟩ := holdsAt_cons.mp h.right
  refine ⟨hop, (holdsAt_cons.mp hrest).1, ?_⟩
  have hdata := holdsAt_drop hrest (pkgLenBytes lead + 2)
  have hat : p + s5Name.length + 1 + (pkgLenBytes lead + 2) =
      p + 4 + 2 + pkgLenBytes lead + 1 := by
    simp only [s5Name, List.length_cons, List.length_nil]
    omega
  rwa [hat] at hdata

/-- A look at a name whose package is not decided within the bytes goes past them. -/
theorem lookAt_outside (h : HoldsAt mem p (s5Name ++ bytes)) (hsplit : splitPackage bytes = none) :
    ∃ a ∈ reads mem (lookAt p), p + 4 + bytes.length ≤ a := by
  rw [reads_lookAt_name h]
  cases bytes with
  | nil => exact ⟨p + 4, by simp, le_rfl⟩
  | cons op rest =>
    have hop : mem (p + 4) = op := (holdsAt_cons.mp h.right).1
    rw [splitPackage] at hsplit
    split_ifs at hsplit with hpackage
    subst hpackage
    cases rest with
    | nil => exact ⟨p + 5, by simp [hop], le_rfl⟩
    | cons lead tail =>
      obtain ⟨-, hlead, hdata⟩ := holdsAt_elements h
      rw [List.head?_cons, Option.bind_some] at hsplit
      cases ha : splitElement ((lead :: tail).drop (pkgLenBytes lead + 2)) with
      | none =>
        obtain ⟨a, hmem, hle⟩ := readElement_outside hdata ha
        refine ⟨a, by simp [hop, hlead, hmem], ?_⟩
        simp only [List.length_drop, List.length_cons] at hle ⊢
        omega
      | some first =>
        have hfirst := readElement_inside hdata ha
        rw [ha, Option.bind_some, Option.map_eq_none_iff] at hsplit
        obtain ⟨a, hmem, hle⟩ := readElement_outside hfirst.rest hsplit
        refine ⟨a, by simp [hop, hlead, hmem], ?_⟩
        have hnext := hfirst.next
        simp only [List.length_drop, List.length_cons] at hnext ⊢
        omega

theorem lookAt_inside {taken : Bool} (h : HoldsAt mem p (s5Name ++ bytes))
    (hsplit : splitPackage bytes = some taken) :
    (∀ a ∈ reads mem (lookAt p), a < p + 4 + bytes.length) ∧
      (run mem (lookAt p)).isSome = taken := by
  have hname : run mem (customMemcmp p s5Name) = true := run_customMemcmp.mpr h.left
  have hcompare : ∀ a ∈ reads mem (customMemcmp p s5Name), a < p + 4 :=
    (reads_customMemcmp_lt h.left).mpr (by simp)
  rw [reads_lookAt_name h]
  cases bytes with
  | nil => cases hsplit
  | cons op rest =>
    have hop : mem (p + 4) = op := (holdsAt_cons.mp h.right).1
    rw [splitPackage] at hsplit
    split_ifs at hsplit with hpackage
    · subst hpackage
      cases rest with
      -- the bytes end at the package opcode, and the split refuses them
      | nil => cases hsplit
      | cons lead tail =>
        obtain ⟨-, hlead, hdata⟩ := holdsAt_elements h
        rw [List.head?_cons, Option.bind_some] at hsplit
        obtain ⟨first, ha, hsplit⟩ := Option.bind_eq_some_iff.mp hsplit
        obtain ⟨second, hb, rfl⟩ := Option.map_eq_some_iff.mp hsplit
        have hfirst := readElement_inside hdata ha
        have hsecond := readElement_inside hfirst.rest hb
        have hpackage : (lead :: tail).drop (pkgLenBytes lead + 2) ≠ [] := by
          intro hnil
          rw [hnil] at ha
          cases ha
        rw [Ne, List.drop_eq_nil_iff, List.length_cons, not_le] at hpackage
        have hnext := hfirst.next
        have hreads := hfirst.reads
        rw [List.length_drop] at hnext hreads
        refine ⟨fun a hmem => ?_, ?_⟩
        · simp only [hop, hlead, if_true, List.mem_append, List.mem_cons] at hmem
          simp only [List.length_cons] at hnext hreads ⊢
          rcases hmem with hmem | rfl | rfl | hmem | hmem
          · have hbetween := hcompare a hmem
            omega
          · omega
          · omega
          · have hbetween := hreads a hmem
            omega
          · have hbetween := hsecond.reads a hmem
            omega
        · have hif : ∀ (b : Bool) (x : UInt16 × UInt16),
              (run mem (if b = true then pure (some x) else pure none)).isSome = b := fun b x => by
            cases b <;> rfl
          simp only [lookAt, run_bind, hname, if_true, run_read, hop, hlead, hif, hfirst.valid,
            hsecond.valid]
    · -- no package: the look stops at the byte after the name
      obtain rfl := Option.some.inj hsplit
      refine ⟨fun a hmem => ?_, ?_⟩
      · simp only [hop, if_neg hpackage, List.mem_append, List.mem_cons, List.not_mem_nil,
          or_false] at hmem
        rw [List.length_cons]
        rcases hmem with hmem | rfl
        · have hbetween := hcompare a hmem
          omega
        · omega
      · simp [lookAt, hname, hop, hpackage]

/-- A round at a byte where no name begins compares it with the name and goes on. -/
theorem lookAt_other (h : ¬ HoldsAt mem p s5Name) :
    reads mem (lookAt p) = reads mem (customMemcmp p s5Name) := by
  rw [← run_customMemcmp] at h
  simp [lookAt, h]

/-- An element takes its opcode and at most the byte behind it, and no look goes back. -/
theorem readElement_ge (mem : ℕ → UInt8) (p : ℕ) :
    (∀ a ∈ reads mem (readElement p), p ≤ a) ∧ p ≤ (run mem (readElement p)).next := by
  by_cases hbyte : mem p = 0x0A
  · simp [readElement, hbyte]
  · by_cases hzero : mem p = 0x00
    · simp [readElement, hzero]
    · by_cases hone : mem p = 0x01
      · simp [readElement, hone]
      · simp [readElement, hbyte, hzero, hone]

theorem reads_lookAt_ge {a : ℕ} (h : a ∈ reads mem (lookAt p)) : p ≤ a := by
  by_cases hname : HoldsAt mem p s5Name
  · rw [← List.append_nil s5Name] at hname
    rw [reads_lookAt_name hname, List.mem_append, List.mem_cons] at h
    rcases h with h | rfl | h
    · exact reads_customMemcmp_ge h
    · omega
    · split_ifs at h
      · obtain ⟨hfirst, hnext⟩ := readElement_ge mem (p + 4 + 2 + pkgLenBytes (mem (p + 5)) + 1)
        simp only [List.mem_cons, List.mem_append] at h
        rcases h with rfl | h | h
        · omega
        · have hge := hfirst a h
          omega
        · have hge := (readElement_ge mem _).1 a h
          omega
      · cases h
  · rw [lookAt_other hname] at h
    exact reads_customMemcmp_ge h

theorem complete_name {rest : List UInt8} : Complete (s5Name ++ rest) ↔
    splitPackage rest = some true ∨
      splitPackage rest = some false ∧ Complete (s5Name.tail ++ rest) := by
  constructor
  · intro h
    generalize hbytes : s5Name ++ rest = bytes at h
    cases h with
    | nil => simp [s5Name] at hbytes
    | other hname => exact (hname (hbytes ▸ List.prefix_append ..)).elim
    | passed hsplit hrest =>
      obtain rfl := List.append_cancel_left hbytes
      exact Or.inr ⟨hsplit, hrest⟩
    | taken hsplit =>
      obtain rfl := List.append_cancel_left hbytes
      exact Or.inl hsplit
  · rintro (hsplit | ⟨hsplit, hrest⟩)
    · exact Complete.taken hsplit
    · exact Complete.passed hsplit hrest

theorem complete_other {b : UInt8} {rest : List UInt8} (h : ¬ s5Name <+: b :: rest) :
    Complete (b :: rest) ↔ ¬ b :: rest <+: s5Name ∧ Complete rest := by
  constructor
  · intro hcomplete
    generalize hbytes : b :: rest = bytes at hcomplete
    cases hcomplete with
    | nil => cases hbytes
    | other hname hend hrest =>
      obtain ⟨rfl, rfl⟩ := List.cons.inj hbytes
      exact ⟨hend, hrest⟩
    | passed => exact (h (hbytes ▸ List.prefix_append ..)).elim
    | taken => exact (h (hbytes ▸ List.prefix_append ..)).elim
  · rintro ⟨hend, hrest⟩
    exact Complete.other h hend hrest

theorem reads_scan_succ (n p : ℕ) : reads mem (scan (n + 1) p) = reads mem (lookAt p) ++
    if (run mem (lookAt p)).isSome then [] else reads mem (scan n (p + 1)) := by
  rw [scan, reads_bind]
  cases run mem (lookAt p) with
  | none => rfl
  | some types => rfl

theorem reads_scan_ge {a : ℕ} (h : a ∈ reads mem (scan n p)) : p ≤ a := by
  induction n generalizing p with
  | zero => cases h
  | succ n ih =>
    rw [reads_scan_succ, List.mem_append] at h
    rcases h with h | h
    · exact reads_lookAt_ge h
    · split_ifs at h
      · cases h
      · exact (Nat.le_succ p).trans (ih h)

/-- The scan of the last bytes of a table stays in them exactly when they are complete. -/
theorem scan_inside_iff (h : HoldsAt mem p bytes) :
    (∀ a ∈ reads mem (scan bytes.length p), a < p + bytes.length) ↔ Complete bytes := by
  induction bytes generalizing p with
  | nil => exact iff_of_true (by simp [scan]) Complete.nil
  | cons b rest ih =>
    have hrest := ih (holdsAt_cons.mp h).2
    rw [Nat.add_assoc, Nat.add_comm 1] at hrest
    rw [List.length_cons, reads_scan_succ, List.forall_mem_append]
    by_cases hname : s5Name <+: b :: rest
    · obtain ⟨more, hmore⟩ := hname
      have hlen : 4 + more.length = rest.length + 1 := by
        have hlen := congrArg List.length hmore
        rwa [List.length_append, List.length_cons] at hlen
      have htail : s5Name.tail ++ more = rest := (List.cons.inj hmore).2
      rw [← hmore] at h
      rw [← hmore, complete_name, htail, ← hrest]
      cases hsplit : splitPackage more with
      | none =>
        obtain ⟨a, ha, hle⟩ := lookAt_outside h hsplit
        refine iff_of_false (fun hall => ?_) (by simp)
        have hlt := hall.1 a ha
        omega
      | some taken =>
        obtain ⟨hreads, htaken⟩ := lookAt_inside h hsplit
        rw [htaken]
        have hlook : ∀ a ∈ reads mem (lookAt p), a < p + (rest.length + 1) := fun a ha => by
          have hlt := hreads a ha
          omega
        rw [and_iff_right hlook]
        cases taken with
        | false => simp
        | true => simp
    · have hcompare := reads_customMemcmp_lt (s := s5Name) h
      rw [List.length_cons] at hcompare
      rw [complete_other hname, ← hrest]
      by_cases hend : b :: rest <+: s5Name
      · -- the comparison takes these last bytes for the beginning of a name
        refine iff_of_false (fun hall => ?_) (fun hall => hall.1 hend)
        have hshort := hcompare.mp fun a ha => hall.1 a (by simp [lookAt, ha])
        rw [not_and, not_lt] at hshort
        exact hname (hend.eq_of_length_le (hshort hend) ▸ List.prefix_rfl)
      · have hnot : ¬ HoldsAt mem p s5Name := fun hholds =>
          (prefix_or_of_holdsAt h hholds).elim hend hname
        have hlook := hcompare.mpr fun hand => hend hand.1
        rw [run_lookAt_of_not hnot, lookAt_other hnot, and_iff_right hlook, and_iff_right hend]
        simp

theorem Dsdt.holdsAt_contents (d : Dsdt) :
    HoldsAt d.mem (d.address + sdtHeaderLength) d.contents := by
  intro i b hb
  obtain ⟨hi, hget⟩ := List.getElem?_eq_some_iff.mp hb
  simpa [Dsdt.contents] using hget

/-- The scan stays in a table exactly when its header is there up to the length and the bytes
behind the header are complete. -/
theorem readsInside_iff (d : Dsdt) : d.ReadsInside ↔ 8 ≤ d.length ∧ Complete d.contents := by
  have hsignature := run_customMemcmp.mpr d.signature
  have hlength : d.contents.length = d.length - sdtHeaderLength := by simp [Dsdt.contents]
  have hscan := scan_inside_iff d.holdsAt_contents
  rw [hlength] at hscan
  have hreads : reads d.mem (scanDsdt d.address) =
      reads d.mem (customMemcmp d.address dsdtSignature) ++ (List.range' (d.address + 4) 4 ++
        reads d.mem (scan (d.length - sdtHeaderLength) (d.address + sdtHeaderLength))) := by
    simp only [scanDsdt, reads_bind, hsignature, if_true, reads_readLe, run_readLe, Dsdt.length]
  have hcompare : ∀ a ∈ reads d.mem (customMemcmp d.address dsdtSignature), a < d.address + 4 :=
    (reads_customMemcmp_lt d.signature).mpr (by simp)
  unfold Dsdt.ReadsInside
  rw [hreads]
  constructor
  · intro hall
    have hheader := hall (d.address + 7) (by simp [List.mem_range'_1])
    refine ⟨by omega, hscan.mp fun a ha => ?_⟩
    have hinside := hall a (by simp [ha])
    have hge := reads_scan_ge ha
    omega
  · rintro ⟨hheader, hcomplete⟩ a ha
    rw [List.mem_append, List.mem_append, List.mem_range'_1] at ha
    rcases ha with ha | ha | ha
    · have hge := reads_customMemcmp_ge ha
      have hlt := hcompare a ha
      omega
    · omega
    · have hge := reads_scan_ge ha
      have hlt := hscan.mpr hcomplete a ha
      omega

/-! ## What the scan writes and reads -/

/-- A table with its name, package and two sleep types. -/
def S5Dsdt := { t : S5Table // t.WellFormed }

/-- The sleep types are written exactly when the name is behind the header and both of them are in
an encoding of one byte, and no byte outside a table is read exactly when its header is there and
the bytes behind it are complete. -/
theorem acpi_shutdown_scan_iff (t : S5Dsdt) (d : Dsdt) :
    (WritesRight t.val ↔
      sdtHeaderLength ≤ t.val.before.length ∧ t.val.a.IsShort ∧ t.val.b.IsShort) ∧
    (d.ReadsInside ↔ 8 ≤ d.length ∧ Complete d.contents) :=
  ⟨⟨short_of_writesRight t.property,
    fun h => writesRight_of_short t.property h.1 h.2.1 h.2.2⟩, readsInside_iff d⟩

/-- A table with the sleep types 5 and 1, the first one as a word. -/
def wordTable : S5Table where
  before := dsdtSignature ++ [47, 0, 0, 0] ++ List.replicate 28 0
  lead := 7
  lengthBytes := []
  numElements := 2
  a := .wordPrefix 5
  b := .oneOp
  rest := []

theorem wordTable_wellFormed : wordTable.WellFormed := by
  have honce : ∀ i < wordTable.bytes.length, s5Name <+: wordTable.bytes.drop i →
      i = wordTable.before.length := by decide +kernel
  refine ⟨by decide, by decide +kernel, rfl, fun i hname => ?_, by decide, by decide⟩
  have hlt : i < wordTable.bytes.length := by
    by_contra hle
    rw [List.drop_eq_nil_iff.mpr (not_lt.mp hle), List.prefix_nil] at hname
    cases hname
  exact honce i hlt hname

/-- The scan passes over the word. -/
theorem wordTable_not_written :
    ¬ ((∀ t : S5Dsdt, WritesRight t.val) ∧ ∀ d : Dsdt, d.ReadsInside) := by
  rintro ⟨hwrites, -⟩
  have hall := hwrites ⟨wordTable, wordTable_wellFormed⟩ (tableAt wordTable.bytes) oneBlock
    (by decide) (holdsAt_tableAt _)
  revert hall
  decide +kernel

end Rhoudveine.Acpi
