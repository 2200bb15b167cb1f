import Rhoudveine.Lib.Memory

/-!
# Byte strings in memory

Where in memory a list of bytes or a C string is.
-/

namespace Rhoudveine.Memory

/-- The bytes from address 0 on, and zeros behind them. -/
def ofBytes (bytes : List UInt8) : Memory := fun a => bytes.getD a.toNat 0

/-- The bytes are in memory from `a` on. -/
def Holds (m : Memory) (a : UInt64) : List UInt8 → Prop
  | [] => True
  | b :: bs => m a = b ∧ Holds m (a + 1) bs

theorem add_one_add_ofNat (a : UInt64) (n : ℕ) :
    a + 1 + UInt64.ofNat n = a + UInt64.ofNat (n + 1) := by
  rw [UInt64.ofNat_add, UInt64.add_assoc, UInt64.add_comm 1]
  rfl

theorem holds_append {m : Memory} {a : UInt64} {bs cs : List UInt8} :
    Holds m a (bs ++ cs) ↔ Holds m a bs ∧ Holds m (a + UInt64.ofNat bs.length) cs := by
  induction bs generalizing a with
  | nil =>
    have hzero : a + UInt64.ofNat 0 = a := UInt64.add_zero a
    rw [List.nil_append, List.length_nil, hzero]
    exact (and_iff_right trivial).symm
  | cons b bs ih =>
    rw [List.cons_append, Holds, Holds, ih, List.length_cons, add_one_add_ofNat, and_assoc]

theorem Holds.getElem {m : Memory} {a : UInt64} {bs : List UInt8} (h : Holds m a bs) {i : ℕ}
    (hi : i < bs.length) : m (a + UInt64.ofNat i) = bs[i] := by
  induction bs generalizing a i with
  | nil => cases hi
  | cons b bs ih =>
    cases i with
    | zero =>
      have hzero : a + UInt64.ofNat 0 = a := UInt64.add_zero a
      rw [hzero]
      exact h.1
    | succ i =>
      rw [← add_one_add_ofNat]
      exact ih h.2 (Nat.lt_of_succ_lt_succ hi)

theorem holds_iff {m : Memory} {a : UInt64} {bs : List UInt8} :
    Holds m a bs ↔ ∀ i (hi : i < bs.length), m (a + UInt64.ofNat i) = bs[i] := by
  constructor
  · exact fun h i hi => h.getElem hi
  · intro h
    induction bs generalizing a with
    | nil => trivial
    | cons b bs ih =>
      constructor
      · have hfirst := h 0 (Nat.succ_pos _)
        have hzero : a + UInt64.ofNat 0 = a := UInt64.add_zero a
        rwa [hzero] at hfirst
      · apply ih
        intro i hi
        rw [add_one_add_ofNat]
        exact h (i + 1) (Nat.succ_lt_succ hi)

theorem holds_ofBytes {bytes : List UInt8} (h : bytes.length ≤ 2 ^ 64) :
    Holds (ofBytes bytes) 0 bytes := by
  rw [holds_iff]
  intro i hi
  have hnat : (0 + UInt64.ofNat i).toNat = i := by
    rw [UInt64.zero_add, UInt64.toNat_ofNat']
    omega
  unfold ofBytes
  rw [hnat, List.getD_eq_getElem _ _ hi]

/-- Two lists of one length at one place are the same. -/
theorem Holds.unique {m : Memory} {a : UInt64} {bs cs : List UInt8} (h : Holds m a bs)
    (h' : Holds m a cs) (hlen : bs.length = cs.length) : bs = cs := by
  apply List.ext_getElem hlen
  intro i hi hi'
  rw [← h.getElem hi, ← h'.getElem hi']

/-! ## C strings -/

/-- A string with its terminating NUL. -/
def CStr (m : Memory) (a : UInt64) (s : List UInt8) : Prop := 0 ∉ s ∧ Holds m a (s ++ [0])

theorem CStr.unique {m : Memory} {a : UInt64} {s t : List UInt8} (h : CStr m a s)
    (h' : CStr m a t) : s = t := by
  induction s generalizing a t with
  | nil =>
    cases t with
    | nil => rfl
    | cons c t =>
      have hzero : m a = 0 := h.2.1
      have hc : m a = c := h'.2.1
      exact absurd (List.mem_cons_self) (hc ▸ hzero ▸ h'.1)
  | cons b s ih =>
    cases t with
    | nil =>
      have hzero : m a = 0 := h'.2.1
      have hb : m a = b := h.2.1
      exact absurd (List.mem_cons_self) (hb ▸ hzero ▸ h.1)
    | cons c t =>
      have hb : m a = b := h.2.1
      have hc : m a = c := h'.2.1
      rw [← hb, ← hc, ih ⟨fun hmem => h.1 (List.mem_cons_of_mem _ hmem), h.2.2⟩
        ⟨fun hmem => h'.1 (List.mem_cons_of_mem _ hmem), h'.2.2⟩]

/-- The string at the start of bytes that contain a NUL. -/
theorem cStr_of_holds {m : Memory} {a : UInt64} {bs : List UInt8} (h : Holds m a bs)
    (hzero : 0 ∈ bs) : CStr m a (bs.takeWhile (· ≠ 0)) := by
  induction bs generalizing a with
  | nil => cases hzero
  | cons b bs ih =>
    by_cases hb : b = 0
    · subst hb
      exact ⟨by simp, h.1, trivial⟩
    · have hrest := ih h.2 ((List.mem_cons.mp hzero).resolve_left fun h0 => hb h0.symm)
      rw [List.takeWhile_cons_of_pos (by simpa using hb)]
      refine ⟨?_, h.1, hrest.2⟩
      intro hmem
      rcases List.mem_cons.mp hmem with h0 | hmem
      · exact hb h0.symm
      · exact hrest.1 hmem

end Rhoudveine.Memory
