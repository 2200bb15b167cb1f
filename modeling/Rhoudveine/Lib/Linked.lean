import Mathlib

/-!
# Singly linked lists

Lists threaded through a table of links: `Linked next p xs` says that the nodes from the pointer
`p` on are `xs`.  The changes of links that list code makes, and its loops.
-/

namespace Rhoudveine

variable {α : Type*}

/-- The nodes from `p` to the end are `xs`, in order. -/
def Linked (next : α → Option α) : Option α → List α → Prop
  | p, [] => p = none
  | p, x :: xs => p = some x ∧ Linked next (next x) xs

namespace Linked

variable {next next' : α → Option α} {p : Option α} {x a c : α} {xs ys : List α}

theorem head (h : Linked next p xs) : p = xs.head? := by
  cases xs with
  | nil => exact h
  | cons x xs => exact h.1

theorem nil_iff : Linked next none xs ↔ xs = [] := by
  constructor
  · intro h
    cases xs with
    | nil => rfl
    | cons x xs => cases h.1
  · rintro rfl
    rfl

theorem cons_of_some (h : Linked next (some x) xs) :
    ∃ ys, xs = x :: ys ∧ Linked next (next x) ys := by
  cases xs with
  | nil => cases h
  | cons y ys =>
    obtain ⟨hy, hrest⟩ := h
    obtain rfl := Option.some.inj hy
    exact ⟨ys, rfl, hrest⟩

/-- A pointer has only one list. -/
theorem unique (h : Linked next p xs) (h' : Linked next p ys) : xs = ys := by
  induction xs generalizing p ys with
  | nil =>
    obtain rfl : p = none := h
    exact (nil_iff.mp h').symm
  | cons x xs ih =>
    obtain ⟨rfl, hrest⟩ := h
    obtain ⟨zs, rfl, hrest'⟩ := h'.cons_of_some
    rw [ih hrest hrest']

theorem split (h : Linked next p (xs ++ ys)) : ∃ q, Linked next q ys := by
  induction xs generalizing p with
  | nil => exact ⟨p, h⟩
  | cons x xs ih => exact ih h.2

/-- A list has no cycle. -/
theorem nodup (h : Linked next p xs) : xs.Nodup := by
  induction xs generalizing p with
  | nil => exact List.nodup_nil
  | cons x xs ih =>
    obtain ⟨-, hrest⟩ := h
    refine List.nodup_cons.mpr ⟨fun hx => ?_, ih hrest⟩
    -- a second occurrence of the first node would have the same list after it
    obtain ⟨zs, ws, rfl⟩ := List.append_of_mem hx
    obtain ⟨q, hq⟩ := hrest.split
    have hsame := hq.2.unique hrest
    have hlength := congrArg List.length hsame
    rw [List.length_append, List.length_cons] at hlength
    omega

theorem congr (h : Linked next p xs) (hnext : ∀ x ∈ xs, next' x = next x) : Linked next' p xs := by
  induction xs generalizing p with
  | nil => exact h
  | cons x xs ih =>
    refine ⟨h.1, ?_⟩
    rw [hnext x List.mem_cons_self]
    exact ih h.2 fun y hy => hnext y (List.mem_cons_of_mem x hy)

/-- The last node has no link. -/
theorem last (h : Linked next p (xs ++ [c])) : next c = none := by
  obtain ⟨q, hq⟩ := h.split
  exact hq.2

theorem next_eq (h : Linked next p (xs ++ c :: ys)) : next c = ys.head? := by
  obtain ⟨q, hq⟩ := h.split
  exact hq.2.head

/-- The link of a node leads to a node. -/
theorem next_mem (h : Linked next p xs) (ha : a ∈ xs) (hc : next a = some c) : c ∈ xs := by
  induction xs generalizing p with
  | nil => cases ha
  | cons x xs ih =>
    rcases List.mem_cons.mp ha with rfl | ha
    · have hrest := h.2
      rw [hc] at hrest
      obtain ⟨ys, rfl, -⟩ := hrest.cons_of_some
      exact List.mem_cons_of_mem a List.mem_cons_self
    · exact List.mem_cons_of_mem x (ih h.2 ha)

section Update

variable [DecidableEq α]

theorem update (h : Linked next p xs) (ha : a ∉ xs) (q : Option α) :
    Linked (Function.update next a q) p xs := by
  apply h.congr
  intro x hx
  apply Function.update_of_ne
  rintro rfl
  exact ha hx

/-- A new first node. -/
theorem push (h : Linked next p xs) (ha : a ∉ xs) :
    Linked (Function.update next a p) (some a) (a :: xs) := by
  refine ⟨rfl, ?_⟩
  rw [Function.update_self]
  exact h.update ha p

/-- A new node `a` behind `c`. -/
theorem insert (h : Linked next p (xs ++ c :: ys)) (ha : a ∉ xs ++ c :: ys) :
    Linked (Function.update (Function.update next a (next c)) c (some a)) p
      (xs ++ c :: a :: ys) := by
  have hnodup := h.nodup
  induction xs generalizing p with
  | nil =>
    obtain ⟨hp, hrest⟩ := h
    have hca : a ≠ c := by
      rintro rfl
      exact ha List.mem_cons_self
    have hc : c ∉ ys := (List.nodup_cons.mp hnodup).1
    have hays : a ∉ ys := fun hmem => ha (List.mem_cons_of_mem c hmem)
    refine ⟨hp, ?_⟩
    rw [Function.update_self]
    refine ⟨rfl, ?_⟩
    rw [Function.update_of_ne hca, Function.update_self]
    exact (hrest.update hays _).update hc _
  | cons x xs ih =>
    obtain ⟨hp, hrest⟩ := h
    obtain ⟨hx, hnodup⟩ := List.nodup_cons.mp hnodup
    have hxc : x ≠ c := by
      rintro rfl
      exact hx (List.mem_append_right xs List.mem_cons_self)
    have hxa : x ≠ a := by
      rintro rfl
      exact ha List.mem_cons_self
    refine ⟨hp, ?_⟩
    rw [Function.update_of_ne hxc, Function.update_of_ne hxa]
    exact ih hrest (fun hmem => ha (List.mem_cons_of_mem x hmem)) hnodup

/-- The first node becomes the last. -/
theorem rotate (h : Linked next p (a :: xs ++ [c])) :
    Linked (Function.update (Function.update next a none) c (some a)) (next a) (xs ++ [c, a]) := by
  have ha : a ∉ xs ++ [c] := (List.nodup_cons.mp h.nodup).1
  have hrest := h.2.update ha none
  have hinsert := hrest.insert ha
  rw [hrest.last, Function.update_idem] at hinsert
  exact hinsert

end Update

/-! ## Loops -/

/-- Advance while there is a next node that passes the test; `none` if `rounds` are not enough. -/
def advance (next : α → Option α) (test : α → Bool) : (rounds : ℕ) → α → Option α
  | 0, _ => none
  | rounds + 1, c =>
    match next c with
    | none => some c
    | some n => if test n then advance next test rounds n else some c

/-- The number of nodes; `none` if `rounds` are not enough. -/
def count (next : α → Option α) : (rounds : ℕ) → Option α → Option ℕ
  | _, none => some 0
  | 0, some _ => none
  | rounds + 1, some c => (count next rounds (next c)).map (· + 1)

theorem count_eq (h : Linked next p xs) {rounds : ℕ} (hrounds : xs.length ≤ rounds) :
    count next rounds p = some xs.length := by
  induction xs generalizing p rounds with
  | nil =>
    obtain rfl : p = none := h
    unfold count
    rfl
  | cons x xs ih =>
    obtain ⟨rfl, hrest⟩ := h
    rw [List.length_cons] at hrounds
    obtain ⟨rounds, rfl⟩ := Nat.exists_eq_succ_of_ne_zero (show rounds ≠ 0 by omega)
    rw [count, ih hrest (by omega)]
    rfl

/-- More rounds do not change where the loop stops. -/
theorem advance_mono (test : α → Bool) {rounds more : ℕ} {d : α}
    (h : advance next test rounds c = some d) (hmore : rounds ≤ more) :
    advance next test more c = some d := by
  induction rounds generalizing c more with
  | zero => cases h
  | succ rounds ih =>
    obtain ⟨more, rfl⟩ := Nat.exists_eq_succ_of_ne_zero (Nat.ne_zero_of_lt hmore)
    rw [advance] at h ⊢
    cases hc : next c with
    | none =>
      rw [hc] at h
      exact h
    | some n =>
      rw [hc] at h
      dsimp only at h ⊢
      by_cases hn : test n = true
      · rw [if_pos hn] at h ⊢
        exact ih h (Nat.le_of_succ_le_succ hmore)
      · rw [if_neg hn] at h ⊢
        exact h

/-- The loop stops at the last node before the first that fails the test. -/
theorem advance_eq (test : α → Bool) (h : Linked next (some c) (c :: xs)) {rounds : ℕ}
    (hrounds : xs.length < rounds) :
    ∃ ys d, c :: xs.takeWhile test = ys ++ [d] ∧ advance next test rounds c = some d := by
  induction xs generalizing c rounds with
  | nil =>
    obtain ⟨rounds, rfl⟩ := Nat.exists_eq_succ_of_ne_zero (Nat.ne_zero_of_lt hrounds)
    have hnext : next c = none := h.2
    refine ⟨[], c, rfl, ?_⟩
    rw [advance, hnext]
  | cons x xs ih =>
    obtain ⟨rounds, rfl⟩ := Nat.exists_eq_succ_of_ne_zero (Nat.ne_zero_of_lt hrounds)
    obtain ⟨-, hnext, hrest⟩ := h
    rw [List.length_cons] at hrounds
    rw [advance, hnext]
    dsimp only
    by_cases hx : test x = true
    · obtain ⟨ys, d, hlist, hloop⟩ := ih ⟨rfl, hrest⟩ (show xs.length < rounds by omega)
      refine ⟨c :: ys, d, ?_, ?_⟩
      · rw [List.takeWhile_cons, if_pos hx, hlist]
        rfl
      · rw [if_pos hx]
        exact hloop
    · refine ⟨[], c, ?_, if_neg hx⟩
      rw [List.takeWhile_cons, if_neg hx]
      rfl

end Linked

end Rhoudveine
