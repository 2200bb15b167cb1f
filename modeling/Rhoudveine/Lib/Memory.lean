import Mathlib

/-!
# Byte-addressed memory

A 64-bit address space of bytes, with little-endian stores and loads of a few
bytes at once.  Addresses wrap around, as the processor's do.
-/

namespace Rhoudveine

abbrev Memory := UInt64 → UInt8

namespace Memory

def store8 (m : Memory) (a : UInt64) (b : UInt8) : Memory := Function.update m a b

/-- The low `n` bytes of `v` from address `a` on, least significant first. -/
def storeLE (m : Memory) (a : UInt64) : (n : ℕ) → (v : ℕ) → Memory
  | 0, _ => m
  | n + 1, v => storeLE (Function.update m a (UInt8.ofNat v)) (a + 1) n (v / 256)

/-- The number whose `n` bytes start at `a`. -/
def loadLE (m : Memory) (a : UInt64) : (n : ℕ) → ℕ
  | 0 => 0
  | n + 1 => (m a).toNat + 256 * loadLE m (a + 1) n

/-- `n` bytes of value `b`. -/
def memset (m : Memory) (a : UInt64) (b : UInt8) : (n : ℕ) → Memory
  | 0 => m
  | n + 1 => memset (Function.update m a b) (a + 1) b n

/-- `x` is one of the `n` addresses from `a` on. -/
def InRange (a : UInt64) (n : ℕ) (x : UInt64) : Prop := (x - a).toNat < n

theorem inRange_zero (a x : UInt64) : ¬ InRange a 0 x := Nat.not_lt_zero _

/-- The first address, or one of the others. -/
theorem inRange_succ {a x : UInt64} {n : ℕ} :
    InRange a (n + 1) x ↔ x = a ∨ InRange (a + 1) n x ∧ x ≠ a := by
  unfold InRange
  rw [← UInt64.toNat_inj, ne_eq, ← UInt64.toNat_inj, UInt64.toNat_sub, UInt64.toNat_sub,
    UInt64.toNat_add, UInt64.toNat_one]
  have := a.toNat_lt
  have := x.toNat_lt
  omega

/-- Addresses from `a + k` on are not among the first ones. -/
theorem not_inRange_of_add {a k x : UInt64} {m n : ℕ} (h : InRange (a + k) n x) (hm : m ≤ k.toNat)
    (hn : k.toNat + n ≤ 2 ^ 64) : ¬ InRange a m x := by
  unfold InRange at h ⊢
  rw [UInt64.toNat_sub, UInt64.toNat_add] at h
  rw [UInt64.toNat_sub]
  have := a.toNat_lt
  have := x.toNat_lt
  have := k.toNat_lt
  omega

/-! ## Frames -/

theorem storeLE_of_not_inRange (m : Memory) {a x : UInt64} {n : ℕ} (v : ℕ) (hn : n ≤ 2 ^ 64)
    (hx : ¬ InRange a n x) : storeLE m a n v x = m x := by
  induction n generalizing m a v with
  | zero => rfl
  | succ n ih =>
    rw [inRange_succ, not_or] at hx
    rw [storeLE, ih _ _ (by omega) fun h => hx.2 ⟨h, hx.1⟩, Function.update_of_ne hx.1]

theorem memset_apply (m : Memory) (a : UInt64) (b : UInt8) {n : ℕ} (x : UInt64) :
    memset m a b n x = b ∧ InRange a n x ∨ memset m a b n x = m x ∧ ¬ InRange a n x := by
  induction n generalizing m a with
  | zero => exact Or.inr ⟨rfl, inRange_zero a x⟩
  | succ n ih =>
    rw [memset, inRange_succ]
    by_cases hx : x = a
    · subst hx
      rcases ih (Function.update m x b) (x + 1) with ⟨h, -⟩ | ⟨h, -⟩
      · exact Or.inl ⟨h, Or.inl rfl⟩
      · exact Or.inl ⟨h.trans (Function.update_self ..), Or.inl rfl⟩
    · rcases ih (Function.update m a b) (a + 1) with ⟨h, hr⟩ | ⟨h, hr⟩
      · exact Or.inl ⟨h, Or.inr ⟨hr, hx⟩⟩
      · rw [Function.update_of_ne hx] at h
        exact Or.inr ⟨h, fun hor => hor.elim hx fun hand => hr hand.1⟩

theorem memset_of_not_inRange (m : Memory) {a x : UInt64} (b : UInt8) {n : ℕ}
    (hx : ¬ InRange a n x) : memset m a b n x = m x :=
  (memset_apply m a b x).elim (fun h => absurd h.2 hx) And.left

theorem memset_of_inRange (m : Memory) {a x : UInt64} (b : UInt8) {n : ℕ}
    (hx : InRange a n x) : memset m a b n x = b :=
  (memset_apply m a b x).elim And.left fun h => absurd hx h.2

/-! ## What a load sees -/

theorem loadLE_congr {m m' : Memory} {a : UInt64} {n : ℕ}
    (h : ∀ x, InRange a n x → m' x = m x) : loadLE m' a n = loadLE m a n := by
  induction n generalizing a with
  | zero => rfl
  | succ n ih =>
    rw [loadLE, loadLE, h a (inRange_succ.mpr (Or.inl rfl))]
    congr 2
    refine ih fun x hx => ?_
    by_cases hxa : x = a
    · subst hxa
      exact h x (inRange_succ.mpr (Or.inl rfl))
    · exact h x (inRange_succ.mpr (Or.inr ⟨hx, hxa⟩))

theorem not_inRange_self {a : UInt64} {n : ℕ} (hn : n < 2 ^ 64) : ¬ InRange (a + 1) n a := by
  rw [InRange, UInt64.toNat_sub, UInt64.toNat_add, UInt64.toNat_one]
  have := a.toNat_lt
  omega

theorem loadLE_storeLE (m : Memory) (a : UInt64) {n : ℕ} (hn : n ≤ 2 ^ 64) (v : ℕ) :
    loadLE (storeLE m a n v) a n = v % 256 ^ n := by
  induction n generalizing m a v with
  | zero => simp [loadLE, Nat.mod_one]
  | succ n ih =>
    have hfirst : storeLE m a (n + 1) v a = UInt8.ofNat v := by
      rw [storeLE, storeLE_of_not_inRange _ _ (by omega) (not_inRange_self (by omega)),
        Function.update_self]
    have hbyte : (UInt8.ofNat v).toNat = v % 256 := UInt8.toNat_ofNat'
    rw [loadLE, hfirst, storeLE, ih _ _ (by omega), hbyte, pow_succ', Nat.mod_mul]

theorem loadLE_lt (m : Memory) (a : UInt64) (n : ℕ) : loadLE m a n < 256 ^ n := by
  induction n generalizing a with
  | zero => simp [loadLE]
  | succ n ih =>
    rw [loadLE, pow_succ']
    have := ih (a + 1)
    have := (m a).toNat_lt
    omega

/-- A load does not see a store to other offsets of one structure. -/
theorem loadLE_storeLE_offset (m : Memory) (a : UInt64) {k j : UInt64} {n l : ℕ} (v : ℕ)
    (hk : k.toNat + n ≤ 2 ^ 64) (hj : j.toNat + l ≤ 2 ^ 64)
    (h : k.toNat + n ≤ j.toNat ∨ j.toNat + l ≤ k.toNat) :
    loadLE (storeLE m (a + j) l v) (a + k) n = loadLE m (a + k) n := by
  refine loadLE_congr fun x hx => storeLE_of_not_inRange m v (by omega) ?_
  unfold InRange at hx ⊢
  rw [UInt64.toNat_sub, UInt64.toNat_add] at hx ⊢
  have := a.toNat_lt
  have := x.toNat_lt
  have := j.toNat_lt
  have := k.toNat_lt
  omega

theorem loadLE_zero (a : UInt64) (n : ℕ) : loadLE (fun _ => 0) a n = 0 := by
  induction n generalizing a with
  | zero => rfl
  | succ n ih => simp [loadLE, ih]

/-- A load from memory that was cleared. -/
theorem loadLE_memset_zero (m : Memory) (a k : UInt64) {n l : ℕ} (h : k.toNat + l ≤ n)
    (hn : n ≤ 2 ^ 64) : loadLE (memset m a 0 n) (a + k) l = 0 := by
  have hclear : ∀ x, InRange (a + k) l x → memset m a 0 n x = (fun _ => 0 : Memory) x := by
    intro x hx
    apply memset_of_inRange
    unfold InRange at hx ⊢
    rw [UInt64.toNat_sub, UInt64.toNat_add] at hx
    rw [UInt64.toNat_sub]
    have := a.toNat_lt
    have := x.toNat_lt
    omega
  rw [loadLE_congr hclear, loadLE_zero]

/-! ## Words of eight bytes -/

theorem inRange_iff {a x : UInt64} {n : ℕ} (h : a.toNat + n ≤ 2 ^ 64) :
    InRange a n x ↔ a.toNat ≤ x.toNat ∧ x.toNat < a.toNat + n := by
  rw [InRange, UInt64.toNat_sub]
  have := a.toNat_lt
  have := x.toNat_lt
  omega

def load64 (m : Memory) (a : UInt64) : UInt64 := UInt64.ofNat (loadLE m a 8)

def store64 (m : Memory) (a v : UInt64) : Memory := storeLE m a 8 v.toNat

theorem load64_store64 (m : Memory) (a v : UInt64) : load64 (store64 m a v) a = v := by
  have hmod : v.toNat % 256 ^ 8 = v.toNat := Nat.mod_eq_of_lt v.toNat_lt
  rw [load64, store64, loadLE_storeLE m a (by norm_num), hmod]
  exact UInt64.ofNat_toNat

theorem load64_congr {m m' : Memory} {a : UInt64} (h : ∀ x, InRange a 8 x → m' x = m x) :
    load64 m' a = load64 m a := by
  rw [load64, load64, loadLE_congr h]

theorem store64_of_not_inRange (m : Memory) {a x : UInt64} (v : UInt64) (hx : ¬ InRange a 8 x) :
    store64 m a v x = m x :=
  storeLE_of_not_inRange m v.toNat (by norm_num) hx

theorem load64_of_zero {m : Memory} {a : UInt64} (h : ∀ x, InRange a 8 x → m x = 0) :
    load64 m a = 0 := by
  have hzero := load64_congr (m := fun _ => 0) h
  rw [hzero]
  rfl

end Memory

end Rhoudveine
