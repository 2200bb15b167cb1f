import Mathlib

/-!
# Stable priority order

`Before key ps x y`: `x` has the smaller key, or the same key and comes first in `ps`.  A list in
this order stays so when an element that comes last in `ps` is put before the first larger key, and
when its first element leaves both lists.
-/

namespace Rhoudveine

variable {α κ : Type*} [LinearOrder κ]

/-- `x` comes before `y`: ties are broken by the order in `ps`. -/
def Before (key : α → κ) (ps : List α) (x y : α) : Prop :=
  key x < key y ∨ key x = key y ∧ [x, y].Sublist ps

namespace Before

variable {key : α → κ} {ps xs : List α} {a x y : α}

theorem append (h : Before key ps x y) (a : α) : Before key (ps ++ [a]) x y := by
  rcases h with hlt | ⟨heq, hsub⟩
  · exact Or.inl hlt
  · exact Or.inr ⟨heq, hsub.trans (List.sublist_append_left ps [a])⟩

theorem key_le (h : Before key ps x y) : key x ≤ key y := by
  rcases h with hlt | ⟨heq, -⟩
  · exact hlt.le
  · exact heq.le

/-- The last element of `ps` comes after those with a key that is no larger. -/
theorem last (hx : x ∈ ps) (hle : key x ≤ key a) : Before key (ps ++ [a]) x a := by
  rcases hle.lt_or_eq with hlt | heq
  · exact Or.inl hlt
  · refine Or.inr ⟨heq, ?_⟩
    exact (List.singleton_sublist.mpr hx).append (List.Sublist.refl [a])

theorem erase [DecidableEq α] (h : Before key ps x y) (hx : x ≠ a) (hy : y ≠ a) :
    Before key (ps.erase a) x y := by
  rcases h with hlt | ⟨heq, hsub⟩
  · exact Or.inl hlt
  · refine Or.inr ⟨heq, ?_⟩
    have herase : [x, y].erase a = [x, y] := by
      apply List.erase_of_not_mem
      simp [hx.symm, hy.symm]
    rw [← herase]
    exact hsub.erase a

/-! ## Ordered lists -/

/-- Everything from the first larger key on has a larger key. -/
theorem lt_of_mem_dropWhile (h : xs.Pairwise (Before key ps)) {k : κ}
    (hx : x ∈ xs.dropWhile fun y => key y ≤ k) : k < key x := by
  induction xs with
  | nil => cases hx
  | cons y ys ih =>
    obtain ⟨hy, hys⟩ := List.pairwise_cons.mp h
    by_cases hle : key y ≤ k
    · rw [List.dropWhile_cons_of_pos (by simpa using hle)] at hx
      exact ih hys hx
    · rw [List.dropWhile_cons_of_neg (by simpa using hle)] at hx
      have hlt : k < key y := not_le.mp hle
      rcases List.mem_cons.mp hx with rfl | hx
      · exact hlt
      · exact hlt.trans_le (hy x hx).key_le

theorem le_of_mem_takeWhile {k : κ} (hx : x ∈ xs.takeWhile fun y => key y ≤ k) : key x ≤ k := by
  simpa using List.mem_takeWhile_imp hx

/-- Ordered insertion of the element that comes last in `ps`. -/
theorem insert (h : xs.Pairwise (Before key ps)) (hmem : ∀ x ∈ xs, x ∈ ps) (a : α) :
    ((xs.takeWhile fun y => key y ≤ key a) ++ a :: xs.dropWhile fun y => key y ≤ key a).Pairwise
      (Before key (ps ++ [a])) := by
  have hsplit := List.takeWhile_append_dropWhile (p := fun y => decide (key y ≤ key a)) (l := xs)
  have hafter (y : α) (hy : y ∈ xs.dropWhile fun y => key y ≤ key a) :
      Before key (ps ++ [a]) a y := Or.inl (lt_of_mem_dropWhile h hy)
  have hbefore (x : α) (hx : x ∈ xs.takeWhile fun y => key y ≤ key a) :
      Before key (ps ++ [a]) x a :=
    last (hmem x ((List.takeWhile_sublist _).subset hx)) (le_of_mem_takeWhile hx)
  have hold : xs.Pairwise (Before key (ps ++ [a])) := h.imp fun hxy => hxy.append a
  rw [← hsplit, List.pairwise_append] at hold
  obtain ⟨htake, hdrop, hcross⟩ := hold
  rw [List.pairwise_append]
  refine ⟨htake, List.pairwise_cons.mpr ⟨hafter, hdrop⟩, ?_⟩
  intro x hx y hy
  rcases List.mem_cons.mp hy with rfl | hy
  · exact hbefore x hx
  · exact hcross x hx y hy

/-- The first element leaves. -/
theorem tail [DecidableEq α] (h : (a :: xs).Pairwise (Before key ps)) (hnodup : (a :: xs).Nodup) :
    xs.Pairwise (Before key (ps.erase a)) := by
  obtain ⟨-, hxs⟩ := List.pairwise_cons.mp h
  obtain ⟨ha, -⟩ := List.nodup_cons.mp hnodup
  apply hxs.imp_of_mem
  intro x y hx hy hxy
  apply hxy.erase
  · rintro rfl
    exact ha hx
  · rintro rfl
    exact ha hy

end Before

end Rhoudveine
