import Mathlib

/-!
# Loops counted in rounds

A loop that may not end as a function of the number of rounds it may take: `none` says that
they were not enough.
-/

namespace Rhoudveine

variable {τ β : Type*} {f : ℕ → τ → Option β} {P : ℕ → τ → Prop} {Stop : ℕ → Prop} {t : τ}

/-- The loop leaves in the rounds with `Stop`, from any state that satisfies `P` there, and goes on
to the next round in the others. -/
structure Rounds (f : ℕ → τ → Option β) (P : ℕ → τ → Prop) (Stop : ℕ → Prop) : Prop where
  zero : ∀ t, f 0 t = none
  leave : ∀ k t, P k t → Stop k → ∀ n, (f (n + 1) t).isSome
  next : ∀ k t, P k t → ¬ Stop k → ∃ t', P (k + 1) t' ∧ ∀ n, f (n + 1) t = f n t'

namespace Rounds

/-- A loop that returns has come to a round that it leaves in. -/
theorem exists_stop (h : Rounds f P Stop) {n k : ℕ} (ht : P k t) (hf : (f n t).isSome) :
    ∃ j, Stop j := by
  induction n generalizing k t with
  | zero =>
    rw [h.zero] at hf
    cases hf
  | succ n ih =>
    by_cases hstop : Stop k
    · exact ⟨k, hstop⟩
    · obtain ⟨t', ht', hnext⟩ := h.next k t ht hstop
      rw [hnext] at hf
      exact ih ht' hf

/-- `n` rounds before it leaves, the loop needs `n + 1` more. -/
theorem isSome_of_stop (h : Rounds f P Stop) {n k : ℕ} (ht : P k t) (hstop : Stop (k + n)) :
    ∃ m, (f m t).isSome := by
  induction n generalizing k t with
  | zero => exact ⟨1, h.leave k t ht hstop 0⟩
  | succ n ih =>
    by_cases hk : Stop k
    · exact ⟨1, h.leave k t ht hk 0⟩
    · obtain ⟨t', ht', hnext⟩ := h.next k t ht hk
      obtain ⟨m, hm⟩ := ih ht' (by rwa [Nat.add_assoc, Nat.add_comm 1 n])
      exact ⟨m + 1, (hnext m).symm ▸ hm⟩

/-- The loop returns exactly if some round is one that it leaves in. -/
theorem returns_iff (h : Rounds f P Stop) (ht : P 0 t) :
    (∃ n, (f n t).isSome) ↔ ∃ k, Stop k := by
  constructor
  · rintro ⟨n, hn⟩
    exact h.exists_stop ht hn
  · rintro ⟨k, hk⟩
    exact h.isSome_of_stop (n := k) ht (by rwa [Nat.zero_add])

end Rounds

end Rhoudveine
