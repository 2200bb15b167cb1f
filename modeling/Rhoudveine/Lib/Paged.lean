import Mathlib

/-!
# Bytes stored in pages

A store of pages `κ` of `size` cells each, and a page table that lays positions
out over them: position `pos` is cell `pos % size` of page `page (pos / size)`.
`write` writes a range of positions cell by cell; copying it chunk by chunk,
where no chunk crosses a page, comes to the same.
-/

namespace Rhoudveine.Paged

variable {κ β : Type*} [DecidableEq κ]

/-- Replace `n` cells of page `k` from `start` on. -/
def copyIn (m : κ → ℕ → β) (k : κ) (start n : ℕ) (src : ℕ → β) : κ → ℕ → β :=
  Function.update m k fun o => if start ≤ o ∧ o < start + n then src (o - start) else m k o

/-- Write `src 0, …, src (n - 1)` at the positions from `off` on. -/
def write (size : ℕ) (page : ℕ → κ) (m : κ → ℕ → β) (off : ℕ) (src : ℕ → β) : ℕ → κ → ℕ → β
  | 0 => m
  | n + 1 => copyIn (write size page m off src n) (page ((off + n) / size)) ((off + n) % size) 1
      fun _ => src n

/-- The cell at a position. -/
def view (size : ℕ) (page : ℕ → κ) (m : κ → ℕ → β) (pos : ℕ) : β :=
  m (page (pos / size)) (pos % size)

theorem copyIn_of_ne (m : κ → ℕ → β) {k k' : κ} (start n : ℕ) (src : ℕ → β) (h : k' ≠ k) :
    copyIn m k start n src k' = m k' := Function.update_of_ne h ..

theorem copyIn_self (m : κ → ℕ → β) (k : κ) (start n : ℕ) (src : ℕ → β) (o : ℕ) :
    copyIn m k start n src k o = if start ≤ o ∧ o < start + n then src (o - start) else m k o := by
  rw [copyIn, Function.update_self]

theorem copyIn_zero (m : κ → ℕ → β) (k : κ) (start : ℕ) (src : ℕ → β) :
    copyIn m k start 0 src = m := by
  funext k' o
  by_cases h : k' = k
  · subst h
    rw [copyIn_self, if_neg (by omega)]
  · rw [copyIn_of_ne _ _ _ _ h]

/-- One more cell at the end of a chunk. -/
theorem copyIn_succ (m : κ → ℕ → β) (k : κ) (start n : ℕ) (src : ℕ → β) :
    copyIn m k start (n + 1) src = copyIn (copyIn m k start n src) k (start + n) 1 fun _ => src n := by
  funext k' o
  by_cases h : k' = k
  · subst h
    simp only [copyIn_self]
    rcases Nat.lt_trichotomy o (start + n) with hlt | rfl | hgt
    · by_cases hs : start ≤ o
      · rw [if_pos ⟨hs, by omega⟩, if_neg (by omega), if_pos ⟨hs, hlt⟩]
      · rw [if_neg (by omega), if_neg (by omega), if_neg (by omega)]
    · rw [if_pos (by omega), if_pos (by omega), Nat.add_sub_cancel_left]
    · rw [if_neg (by omega), if_neg (by omega), if_neg (by omega)]
  · simp only [copyIn_of_ne _ _ _ _ h]

/-- A chunk inside one page is a write. -/
theorem copyIn_eq_write {size : ℕ} (page : ℕ → κ) (m : κ → ℕ → β) {off n : ℕ} (src : ℕ → β)
    (hchunk : off % size + n ≤ size) :
    copyIn m (page (off / size)) (off % size) n src = write size page m off src n := by
  induction n with
  | zero => exact copyIn_zero ..
  | succ n ih =>
    have hlt : off % size + n < size := by omega
    have hdiv : (off + n) / size = off / size := by
      rw [← Nat.div_add_mod off size, Nat.add_assoc, Nat.mul_add_div (by omega),
        Nat.div_eq_of_lt hlt, Nat.div_add_mod, Nat.add_zero]
    have hmod : (off + n) % size = off % size + n := by
      rw [← Nat.div_add_mod off size, Nat.add_assoc, Nat.mul_add_mod, Nat.mod_eq_of_lt hlt,
        Nat.div_add_mod]
    rw [copyIn_succ, ih (by omega), write, hdiv, hmod]

/-- A write is a shorter write followed by the rest. -/
theorem write_add (size : ℕ) (page : ℕ → κ) (m : κ → ℕ → β) (off : ℕ) (src : ℕ → β) (a b : ℕ) :
    write size page m off src (a + b) =
      write size page (write size page m off src a) (off + a) (fun i => src (a + i)) b := by
  induction b with
  | zero => rfl
  | succ b ih => rw [← Nat.add_assoc, write, ih, write, Nat.add_assoc]

/-- A page that holds none of the written positions keeps its cells. -/
theorem write_of_ne {size : ℕ} {page : ℕ → κ} (m : κ → ℕ → β) {off n : ℕ} (src : ℕ → β) {k : κ}
    (h : ∀ i < n, page ((off + i) / size) ≠ k) : write size page m off src n k = m k := by
  induction n with
  | zero => rfl
  | succ n ih =>
    rw [write, copyIn_of_ne _ _ _ _ (h n (by omega)).symm, ih fun i hi => h i (by omega)]

/-- Reading back a position after a write. -/
theorem view_write {size : ℕ} {page : ℕ → κ} (m : κ → ℕ → β) {off n pos : ℕ}
    (src : ℕ → β)
    (hinj : ∀ i < n, page ((off + i) / size) = page (pos / size) → (off + i) / size = pos / size) :
    view size page (write size page m off src n) pos =
      if off ≤ pos ∧ pos < off + n then src (pos - off) else view size page m pos := by
  induction n with
  | zero => rw [write, if_neg (by omega)]
  | succ n ih =>
    have ih := ih fun i hi => hinj i (by omega)
    rw [write, view]
    by_cases hpage : page ((off + n) / size) = page (pos / size)
    · have hdiv := hinj n (by omega) hpage
      rw [← hpage, copyIn_self]
      by_cases hpos : pos = off + n
      · subst hpos
        rw [if_pos (by omega), if_pos (by omega), Nat.add_sub_cancel_left]
      · have hmod : pos % size ≠ (off + n) % size := by
          intro h
          apply hpos
          rw [← Nat.div_add_mod pos size, h, ← hdiv, Nat.div_add_mod]
        rw [if_neg (by omega), hpage]
        refine Eq.trans ih (if_congr ?_ rfl rfl)
        omega
    · have hpos : pos ≠ off + n := by
        rintro rfl
        exact hpage rfl
      rw [copyIn_of_ne _ _ _ _ (Ne.symm hpage)]
      refine Eq.trans ih (if_congr ?_ rfl rfl)
      omega

end Rhoudveine.Paged
