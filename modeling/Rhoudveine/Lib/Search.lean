import Mathlib

/-!
# Bounded linear search

The shape of a C loop `for (i = start; i < start + n; i++)` that leaves through
its first hit.
-/

namespace Rhoudveine.Search

variable {α β : Type*}

/-- The first `some` among `f start, …, f (start + n - 1)`. -/
def firstSome (f : ℕ → Option α) : (n start : ℕ) → Option α
  | 0, _ => none
  | n + 1, start =>
    match f start with
    | some a => some a
    | none => firstSome f n (start + 1)

theorem firstSome_eq_none {f : ℕ → Option α} {n start : ℕ} :
    firstSome f n start = none ↔ ∀ i, start ≤ i → i < start + n → f i = none := by
  induction n generalizing start with
  | zero => simp only [firstSome, true_iff]; intro i h h'; omega
  | succ n ih =>
    rw [firstSome]
    cases h : f start with
    | some a =>
      simp only [reduceCtorEq, false_iff]
      intro hall
      have := hall start le_rfl (by omega)
      simp [h] at this
    | none =>
      rw [ih]
      constructor
      · intro hall i hi hi'
        rcases Nat.eq_or_lt_of_le hi with rfl | hlt
        · exact h
        · exact hall i hlt (by omega)
      · intro hall i hi hi'
        exact hall i (by omega) (by omega)

theorem firstSome_eq_some {f : ℕ → Option α} {n start : ℕ} {a : α} :
    firstSome f n start = some a ↔
      ∃ i, start ≤ i ∧ i < start + n ∧ f i = some a ∧ ∀ j, start ≤ j → j < i → f j = none := by
  induction n generalizing start with
  | zero =>
    simp only [firstSome, reduceCtorEq, false_iff]
    rintro ⟨i, h, h', -⟩
    omega
  | succ n ih =>
    rw [firstSome]
    cases h : f start with
    | some b =>
      simp only [Option.some.injEq]
      constructor
      · rintro rfl
        exact ⟨start, le_rfl, by omega, h, fun j hj hj' => by omega⟩
      · rintro ⟨i, hi, -, hfi, hlt⟩
        rcases Nat.eq_or_lt_of_le hi with rfl | hlt'
        · simpa [h] using hfi
        · simp [hlt start le_rfl hlt'] at h
    | none =>
      rw [ih]
      constructor
      · rintro ⟨i, hi, hi', hfi, hlt⟩
        refine ⟨i, by omega, by omega, hfi, fun j hj hj' => ?_⟩
        rcases Nat.eq_or_lt_of_le hj with rfl | hlt'
        · exact h
        · exact hlt j hlt' hj'
      · rintro ⟨i, hi, hi', hfi, hlt⟩
        have hne : i ≠ start := by rintro rfl; simp [h] at hfi
        exact ⟨i, by omega, by omega, hfi, fun j hj hj' => hlt j (by omega) hj'⟩

theorem firstSome_congr {f g : ℕ → Option α} {n start : ℕ}
    (h : ∀ i, start ≤ i → i < start + n → f i = g i) : firstSome f n start = firstSome g n start := by
  induction n generalizing start with
  | zero => rfl
  | succ n ih =>
    rw [firstSome, firstSome, h start le_rfl (by omega), ih fun i hi hi' => h i (by omega) (by omega)]

/-- One more hit behind all others. -/
theorem firstSome_update {f g : ℕ → Option α} {n k : ℕ} (hk : k < n) (hg : ∀ i ≠ k, g i = f i)
    (hf : ∀ i, k ≤ i → f i = none) : firstSome g n 0 = (firstSome f n 0).or (g k) := by
  cases hfirst : firstSome f n 0 with
  | some a =>
    obtain ⟨i, -, hi, hfi, hlt⟩ := firstSome_eq_some.mp hfirst
    have hik : i < k := by
      by_contra hge
      rw [hf i (Nat.le_of_not_lt hge)] at hfi
      cases hfi
    rw [Option.some_or]
    apply firstSome_eq_some.mpr
    refine ⟨i, Nat.zero_le i, hi, (hg i (Nat.ne_of_lt hik)).trans hfi, fun j _ hj => ?_⟩
    exact (hg j (Nat.ne_of_lt (hj.trans hik))).trans (hlt j (Nat.zero_le j) hj)
  | none =>
    have hnone := firstSome_eq_none.mp hfirst
    rw [Option.none_or]
    cases hgk : g k with
    | none =>
      apply firstSome_eq_none.mpr
      intro i _ hi
      by_cases hik : i = k
      · rw [hik, hgk]
      · rw [hg i hik, hnone i (Nat.zero_le i) hi]
    | some a =>
      apply firstSome_eq_some.mpr
      refine ⟨k, Nat.zero_le k, by omega, hgk, fun j _ hj => ?_⟩
      rw [hg j (Nat.ne_of_lt hj), hnone j (Nat.zero_le j) (by omega)]

/-- Among the first `n` numbers one satisfies `p` first, or none satisfies it. -/
theorem exists_first_or_forall_not (p : ℕ → Prop) [DecidablePred p] (n : ℕ) :
    (∃ k < n, p k ∧ ∀ i < k, ¬ p i) ∨ ∀ i < n, ¬ p i := by
  by_cases h : ∃ k, k < n ∧ p k
  · obtain ⟨hlt, hp⟩ := Nat.find_spec h
    refine Or.inl ⟨Nat.find h, hlt, hp, fun i hi hpi => ?_⟩
    exact Nat.find_min h hi ⟨hi.trans hlt, hpi⟩
  · refine Or.inr fun i hi hpi => h ⟨i, hi, hpi⟩

end Rhoudveine.Search
