import Mathlib

/-!
# Rings with a cycle bit

A producer writes items into `N` slots, over and over, and gives each item the bit of its lap.  A
consumer with the bit of its own lap can tell an item that it has not seen from the one a lap
before.  The items are counted without wrapping.
-/

namespace Rhoudveine.CycleRing

variable {β : Type*} {N : ℕ}

/-- The bit of the lap of item `n`: true in the first lap. -/
def lapBit (N n : ℕ) : Bool := n / N % 2 = 0

theorem lapBit_zero (N : ℕ) : lapBit N 0 = true := by simp [lapBit]

theorem lapBit_of_lt {n : ℕ} (h : n < N) : lapBit N n = true := by
  rw [lapBit, Nat.div_eq_of_lt h]
  rfl

theorem lapBit_add (hN : 0 < N) (n : ℕ) : lapBit N (n + N) = !lapBit N n := by
  rw [lapBit, lapBit, Nat.add_div_right n hN]
  by_cases h : n / N % 2 = 0
  · simp [h, show (n / N + 1) % 2 = 1 by omega]
  · simp [h, show (n / N + 1) % 2 = 0 by omega]

/-- The bit toggles when the index wraps. -/
theorem lapBit_succ (hN : 0 < N) (n : ℕ) :
    lapBit N (n + 1) = if (n % N + 1) % N = 0 then !lapBit N n else lapBit N n := by
  have hlt := Nat.mod_lt n hN
  have hdiv := Nat.div_add_mod n N
  by_cases hlast : n % N + 1 = N
  · have hnext : n + 1 = N * (n / N + 1) := by
      rw [mul_add, mul_one]
      omega
    rw [if_pos (by rw [hlast, Nat.mod_self]), lapBit, lapBit, hnext, Nat.mul_div_cancel_left _ hN]
    by_cases h : n / N % 2 = 0
    · simp [h, show (n / N + 1) % 2 = 1 by omega]
    · simp [h, show (n / N + 1) % 2 = 0 by omega]
  · have hsmall : n % N + 1 < N := by omega
    have hsame : (n + 1) / N = n / N := by
      have hsum : n + 1 = N * (n / N) + (n % N + 1) := by omega
      rw [hsum, Nat.mul_add_div hN, Nat.div_eq_of_lt hsmall, add_zero]
    have hne : ¬ (n % N + 1) % N = 0 := by
      rw [Nat.mod_eq_of_lt hsmall]
      omega
    rw [if_neg hne, lapBit, lapBit, hsame]

/-- The last `N` items are in their slots; a slot that no item has reached has the bit that no item
of the first lap has. -/
structure Holds (N : ℕ) (cycle : β → Bool) (ring : ℕ → β) (posted : List β) : Prop where
  recent : ∀ n x, posted[n]? = some x → posted.length ≤ n + N → ring (n % N) = x
  cycles : ∀ n x, posted[n]? = some x → cycle x = lapBit N n
  fresh : ∀ k, posted.length ≤ k → k < N → cycle (ring k) = false

variable {cycle : β → Bool} {ring : ℕ → β} {posted : List β}

theorem Holds.start (h : ∀ k < N, cycle (ring k) = false) : Holds N cycle ring [] := by
  constructor
  · intro n x hx
    cases hx
  · intro n x hx
    cases hx
  · exact fun k _ hk => h k hk

/-- The slot of item `n` shows the bit of its lap exactly when the item has been written. -/
theorem Holds.cycle_iff (h : Holds N cycle ring posted) (hN : 0 < N) {n : ℕ}
    (hle : n ≤ posted.length) (hspace : posted.length ≤ n + N) :
    cycle (ring (n % N)) = lapBit N n ↔ n < posted.length := by
  rcases hle.lt_or_eq with hlt | heq
  · have hx : posted[n]? = some posted[n] := List.getElem?_eq_getElem hlt
    rw [h.recent n _ hx hspace, h.cycles n _ hx]
    exact iff_of_true rfl hlt
  · refine iff_of_false ?_ (by omega)
    by_cases hfirst : n < N
    · rw [Nat.mod_eq_of_lt hfirst, h.fresh n heq.ge hfirst, lapBit_of_lt hfirst]
      exact Bool.false_ne_true
    · -- the slot still holds the item of the lap before
      obtain ⟨m, rfl⟩ := Nat.exists_eq_add_of_le' (not_lt.mp hfirst)
      have hm : m < posted.length := by omega
      have hx : posted[m]? = some posted[m] := List.getElem?_eq_getElem hm
      rw [Nat.add_mod_right, h.recent m _ hx (by omega), h.cycles m _ hx, lapBit_add hN]
      exact (Bool.not_ne_self _).symm

theorem Holds.get (h : Holds N cycle ring posted) {n : ℕ} (hlt : n < posted.length)
    (hspace : posted.length ≤ n + N) : posted[n]? = some (ring (n % N)) := by
  have hx : posted[n]? = some posted[n] := List.getElem?_eq_getElem hlt
  rw [hx, h.recent n _ hx hspace]

theorem mod_ne {n k N : ℕ} (hlt : n < k) (hspace : k < n + N) : n % N ≠ k % N := by
  intro heq
  have hmod : (k - n) % N = 0 := (Nat.modEq_iff_dvd' hlt.le).mp heq |> Nat.mod_eq_zero_of_dvd
  rw [Nat.mod_eq_of_lt (by omega)] at hmod
  omega

theorem getElem?_snoc {x y : β} {n : ℕ} (h : (posted ++ [x])[n]? = some y) :
    n < posted.length ∧ posted[n]? = some y ∨ n = posted.length ∧ x = y := by
  rw [List.getElem?_append] at h
  split at h
  · exact Or.inl ⟨by assumption, h⟩
  · obtain ⟨hlt, hxy⟩ := List.getElem?_eq_some_iff.mp h
    rw [List.length_singleton] at hlt
    refine Or.inr ⟨by omega, ?_⟩
    rw [List.getElem_singleton] at hxy
    exact hxy

/-- One more item, with the bit of its lap. -/
theorem Holds.push (h : Holds N cycle ring posted) {x : β}
    (hx : cycle x = lapBit N posted.length) :
    Holds N cycle (Function.update ring (posted.length % N) x) (posted ++ [x]) := by
  constructor
  · intro n y hy hspace
    rw [List.length_append, List.length_singleton] at hspace
    rcases getElem?_snoc hy with ⟨hlt, hold⟩ | ⟨rfl, rfl⟩
    · rw [Function.update_of_ne (mod_ne hlt (by omega))]
      exact h.recent n y hold (by omega)
    · exact Function.update_self ..
  · intro n y hy
    rcases getElem?_snoc hy with ⟨-, hold⟩ | ⟨rfl, rfl⟩
    · exact h.cycles n y hold
    · exact hx
  · intro k hk hkN
    rw [List.length_append, List.length_singleton] at hk
    have hne : k ≠ posted.length % N := by
      rw [Nat.mod_eq_of_lt (by omega)]
      omega
    rw [Function.update_of_ne hne]
    exact h.fresh k (by omega) hkN

end Rhoudveine.CycleRing
