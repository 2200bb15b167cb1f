import Rhoudveine.Lib.CycleRing

/-!
# Queues in a ring

A queue in `N` slots with a slot to write next and a slot to read next.  When the two are the same
the queue is empty, so one slot stays free.  All items that were ever put in are counted.
-/

namespace Rhoudveine.RingQueue
open CycleRing

variable {β : Type*} {N head tail : ℕ} {slots : ℕ → β} {pushed popped : List β} {x : β}

/-- The items `pushed` were put in, and `popped` of them were taken out. -/
structure Holds (N : ℕ) (slots : ℕ → β) (head tail : ℕ) (pushed popped : List β) : Prop where
  order : popped <+: pushed
  room : pushed.length < popped.length + N
  head : head = pushed.length % N
  tail : tail = popped.length % N
  kept : ∀ n x, pushed[n]? = some x → popped.length ≤ n → slots (n % N) = x

theorem Holds.start (hN : 0 < N) (slots : ℕ → β) : Holds N slots 0 0 [] [] := by
  refine ⟨List.prefix_refl [], by simpa using hN, ?_, ?_, ?_⟩
  · exact (Nat.zero_mod N).symm
  · exact (Nat.zero_mod N).symm
  · intro n x hx
    cases hx

theorem Holds.head_lt (h : Holds N slots head tail pushed popped) : head < N := by
  have hroom := h.room
  have hle := h.order.length_le
  rw [h.head]
  exact Nat.mod_lt _ (by omega)

theorem Holds.tail_lt (h : Holds N slots head tail pushed popped) : tail < N := by
  have hroom := h.room
  have hle := h.order.length_le
  rw [h.tail]
  exact Nat.mod_lt _ (by omega)

/-- Two counts less than a lap apart are the same if their slots are. -/
theorem eq_of_mod_eq {m n : ℕ} (hle : m ≤ n) (hlt : n < m + N) (h : m % N = n % N) : m = n := by
  rcases hle.lt_or_eq with hm | rfl
  · exact absurd h (mod_ne hm hlt)
  · rfl

theorem Holds.empty_iff (h : Holds N slots head tail pushed popped) :
    head = tail ↔ pushed.length = popped.length := by
  rw [h.head, h.tail]
  constructor
  · intro heq
    exact (eq_of_mod_eq h.order.length_le h.room heq.symm).symm
  · intro heq
    rw [heq]

theorem Holds.full_iff (h : Holds N slots head tail pushed popped) :
    (head + 1) % N = tail ↔ pushed.length + 1 = popped.length + N := by
  have hroom := h.room
  have hle := h.order.length_le
  rw [h.head, h.tail, Nat.mod_add_mod]
  constructor
  · intro heq
    by_contra hne
    exact mod_ne (by omega) (by omega) heq.symm
  · intro heq
    rw [heq, Nat.add_mod_right]

/-- Put an item in. -/
theorem Holds.push (h : Holds N slots head tail pushed popped) (hfull : (head + 1) % N ≠ tail)
    (x : β) : Holds N (Function.update slots head x) ((head + 1) % N) tail (pushed ++ [x]) popped := by
  have hroom := h.room
  have hfree : pushed.length + 1 ≠ popped.length + N := fun heq => hfull (h.full_iff.mpr heq)
  have hlength : (pushed ++ [x]).length = pushed.length + 1 := by
    rw [List.length_append, List.length_singleton]
  refine ⟨h.order.trans (List.prefix_append _ _), by omega, ?_, h.tail, ?_⟩
  · rw [hlength, h.head, Nat.mod_add_mod]
  · intro n y hy hn
    rcases getElem?_snoc hy with ⟨hlt, hold⟩ | ⟨rfl, rfl⟩
    · rw [h.head, Function.update_of_ne (mod_ne hlt (by omega))]
      exact h.kept n y hold hn
    · rw [h.head]
      exact Function.update_self ..

/-- Take the next item out. -/
theorem Holds.pop (h : Holds N slots head tail pushed popped) (hempty : head ≠ tail) :
    Holds N slots head ((tail + 1) % N) pushed (popped ++ [slots tail]) := by
  have hroom := h.room
  have hlt : popped.length < pushed.length := by
    have hne : pushed.length ≠ popped.length := fun heq => hempty (h.empty_iff.mpr heq)
    have hle := h.order.length_le
    omega
  have hget : pushed[popped.length]? = some (slots tail) := by
    have hx : pushed[popped.length]? = some pushed[popped.length] := List.getElem?_eq_getElem hlt
    rw [hx, h.tail, h.kept _ _ hx le_rfl]
  have hlength : (popped ++ [slots tail]).length = popped.length + 1 := by
    rw [List.length_append, List.length_singleton]
  refine ⟨?_, by omega, h.head, ?_, ?_⟩
  · rw [List.prefix_iff_eq_take, hlength, List.take_add_one, hget,
      ← List.prefix_iff_eq_take.mp h.order]
    rfl
  · rw [hlength, h.tail, Nat.mod_add_mod]
  · intro n y hy hn
    exact h.kept n y hy (by omega)

end Rhoudveine.RingQueue
