import Mathlib

/-!
# Radix trees of tables

Tables of entries, named by `κ` and indexed by `ι`.  `next` reads from an entry the table
it points to, and `isLeaf l` says whether an entry with `l` levels below it ends the walk.
A lookup follows one index per level.  In a tree no table is reached by two paths, so that a
change of one entry only concerns the paths through it.
-/

namespace Rhoudveine.Radix

variable {κ ι ε : Type*}

section definitions

variable (next : ε → Option κ) (isLeaf : ℕ → ε → Bool) (T : κ → ι → ε)

/-- The table at the end of a path. -/
def walk : κ → List ι → Option κ
  | k, [] => some k
  | k, i :: is => (next (T k i)).bind fun c => walk c is

/-- The entry that ends the walk and the number of levels left there. -/
def find : κ → List ι → Option (ε × ℕ)
  | _, [] => none
  | k, i :: is =>
    if isLeaf is.length (T k i) then some (T k i, is.length)
    else (next (T k i)).bind fun c => find c is

/-- Every entry that a lookup reads satisfies `P`. -/
def pathAll (P : ε → Bool) : κ → List ι → Bool
  | _, [] => true
  | k, i :: is =>
    P (T k i) &&
      (isLeaf is.length (T k i) || ((next (T k i)).map fun c => pathAll P c is).getD true)

/-- Up to depth `n` no table is reached twice. -/
def Tree (root : κ) (n : ℕ) : Prop :=
  ∀ p q k, p.length ≤ n → q.length ≤ n → walk next T root p = some k →
    walk next T root q = some k → p = q

/-- The tables reached within `n` steps. -/
def IsTable (root : κ) (n : ℕ) (k : κ) : Prop :=
  ∃ p, p.length ≤ n ∧ walk next T root p = some k

end definitions

variable {next : ε → Option κ} {isLeaf : ℕ → ε → Bool} {T T' : κ → ι → ε}

/-! ## Paths -/

theorem walk_append (k : κ) (p q : List ι) :
    walk next T k (p ++ q) = (walk next T k p).bind fun c => walk next T c q := by
  induction p generalizing k with
  | nil => rfl
  | cons i p ih =>
    rw [List.cons_append, walk, walk]
    cases next (T k i) with
    | none => rfl
    | some c => exact ih c

theorem walk_snoc {k c : κ} {p : List ι} (h : walk next T k p = some c) (i : ι) :
    walk next T k (p ++ [i]) = next (T c i) := by
  rw [walk_append, h]
  change (next (T c i)).bind (fun c => some c) = next (T c i)
  cases next (T c i) <;> rfl

/-- An entry that leads to a table is no leaf where the path goes on. -/
theorem not_leaf_of_next (hleaf : ∀ l e, l ≠ 0 → isLeaf l e → next e = none) {p q : List ι}
    (hq : q ≠ []) {e : ε} {d : κ} (hd : next e = some d) : isLeaf (p ++ q).length e = false := by
  have hlevels : (p ++ q).length ≠ 0 := by
    intro h
    apply hq
    exact (List.append_eq_nil_iff.mp (List.length_eq_zero_iff.mp h)).2
  by_contra hyes
  have hnone := hleaf _ _ hlevels (Bool.not_eq_false _ ▸ hyes)
  rw [hd] at hnone
  cases hnone

/-- A lookup goes on where a walk ends. -/
theorem find_append (hleaf : ∀ l e, l ≠ 0 → isLeaf l e → next e = none) {k c : κ} {p q : List ι}
    (h : walk next T k p = some c) (hq : q ≠ []) :
    find next isLeaf T k (p ++ q) = find next isLeaf T c q := by
  induction p generalizing k with
  | nil =>
    rw [Option.some.inj h]
    rfl
  | cons i p ih =>
    rw [walk] at h
    obtain ⟨d, hd, hc⟩ := Option.bind_eq_some_iff.mp h
    have hno : isLeaf (p ++ q).length (T k i) = false := not_leaf_of_next hleaf hq hd
    rw [List.cons_append, find, hno, if_neg Bool.false_ne_true, hd]
    exact ih hc

theorem pathAll_append (P : ε → Bool) (hleaf : ∀ l e, l ≠ 0 → isLeaf l e → next e = none)
    {k c : κ} {p q : List ι} (h : walk next T k p = some c) (hq : q ≠ []) :
    pathAll next isLeaf T P k (p ++ q) = true ↔
      (∀ p' j r d, p = p' ++ j :: r → walk next T k p' = some d → P (T d j) = true) ∧
        pathAll next isLeaf T P c q = true := by
  induction p generalizing k with
  | nil =>
    rw [Option.some.inj h]
    constructor
    · intro hall
      refine ⟨fun p' j r d hp _ => ?_, hall⟩
      simp at hp
    · exact fun hall => hall.2
  | cons i p ih =>
    rw [walk] at h
    obtain ⟨d, hd, hc⟩ := Option.bind_eq_some_iff.mp h
    have hno : isLeaf (p ++ q).length (T k i) = false := not_leaf_of_next hleaf hq hd
    rw [List.cons_append, pathAll, hno, hd, Bool.false_or, Option.map_some, Option.getD_some,
      Bool.and_eq_true, ih hc]
    constructor
    · rintro ⟨hP, hrest, hq⟩
      refine ⟨fun p' j r e hp he => ?_, hq⟩
      cases p' with
      | nil =>
        obtain ⟨rfl, rfl⟩ := List.cons.inj hp
        rw [← Option.some.inj he]
        exact hP
      | cons i' p' =>
        obtain ⟨rfl, rfl⟩ := List.cons.inj hp
        rw [walk, hd] at he
        exact hrest p' j r e rfl he
    · rintro ⟨hall, hq⟩
      refine ⟨hall [] i p k rfl rfl, fun p' j r e hp he => ?_, hq⟩
      apply hall (i :: p') j r e (by rw [hp, List.cons_append])
      rw [walk, hd]
      exact he

/-! ## Tables that agree along a path -/

theorem walk_congr {root : κ} {w : List ι}
    (h : ∀ p j r c, w = p ++ j :: r → walk next T root p = some c →
      next (T' c j) = next (T c j)) :
    walk next T' root w = walk next T root w := by
  induction w generalizing root with
  | nil => rfl
  | cons i w ih =>
    rw [walk, walk, h [] i w root rfl rfl]
    cases hc : next (T root i) with
    | none => rfl
    | some c =>
      apply ih
      intro p j r d hp hd
      apply h (i :: p) j r d (by rw [hp, List.cons_append])
      rw [walk, hc]
      exact hd

/-- What a lookup sees of an entry with `l` levels below it. -/
def SameTo (next : ε → Option κ) (isLeaf : ℕ → ε → Bool) (l : ℕ) (e e' : ε) : Prop :=
  isLeaf l e' = isLeaf l e ∧ (isLeaf l e → e' = e) ∧ (l ≠ 0 → next e' = next e)

theorem sameTo_refl (l : ℕ) (e : ε) : SameTo next isLeaf l e e :=
  ⟨rfl, fun _ => rfl, fun _ => rfl⟩

theorem find_nil (k : κ) : find next isLeaf T k [] = none := rfl

/-- The step from a path to its tail, for properties of every entry on it. -/
theorem onPath_tail {root c : κ} {i : ι} {w : List ι} {R : ℕ → κ → ι → Prop}
    (hc : next (T root i) = some c)
    (h : ∀ p j r d, i :: w = p ++ j :: r → walk next T root p = some d → R r.length d j) :
    ∀ p j r d, w = p ++ j :: r → walk next T c p = some d → R r.length d j := by
  intro p j r d hp hd
  apply h (i :: p) j r d (by rw [hp, List.cons_append])
  rw [walk, hc]
  exact hd

theorem find_congr {root : κ} {w : List ι}
    (h : ∀ p j r c, w = p ++ j :: r → walk next T root p = some c →
      SameTo next isLeaf r.length (T c j) (T' c j)) :
    find next isLeaf T' root w = find next isLeaf T root w := by
  induction w generalizing root with
  | nil => rfl
  | cons i w ih =>
    obtain ⟨hleaf, hentry, hnext⟩ := h [] i w root rfl rfl
    rw [find, find, hleaf]
    by_cases hyes : isLeaf w.length (T root i) = true
    · rw [if_pos hyes, if_pos hyes, hentry hyes]
    · rw [if_neg hyes, if_neg hyes]
      cases w with
      | nil => cases next (T' root i) <;> cases next (T root i) <;> rfl
      | cons j w =>
        rw [hnext (Nat.succ_ne_zero _)]
        cases hc : next (T root i) with
        | none => rfl
        | some c =>
          exact ih (onPath_tail (R := fun l d j => SameTo next isLeaf l (T d j) (T' d j)) hc h)

/-- Where a lookup sees the same, entries may gain what `P` asks for. -/
theorem pathAll_mono {P : ε → Bool} {root : κ} {w : List ι}
    (h : ∀ p j r c, w = p ++ j :: r → walk next T root p = some c →
      SameTo next isLeaf r.length (T c j) (T' c j))
    (hP : ∀ p j r c, w = p ++ j :: r → walk next T root p = some c →
      P (T c j) = true → P (T' c j) = true)
    (hall : pathAll next isLeaf T P root w = true) :
    pathAll next isLeaf T' P root w = true := by
  induction w generalizing root with
  | nil => rfl
  | cons i w ih =>
    obtain ⟨hleaf, -, hnext⟩ := h [] i w root rfl rfl
    rw [pathAll, Bool.and_eq_true, Bool.or_eq_true] at hall
    rw [pathAll, Bool.and_eq_true, Bool.or_eq_true, hleaf]
    refine ⟨hP [] i w root rfl rfl hall.1, hall.2.imp_right fun hrest => ?_⟩
    cases w with
    | nil =>
      cases next (T' root i) <;> rfl
    | cons j w =>
      rw [hnext (Nat.succ_ne_zero _)]
      cases hc : next (T root i) with
      | none => rfl
      | some c =>
        rw [hc] at hrest
        apply ih (onPath_tail (R := fun l d j => SameTo next isLeaf l (T d j) (T' d j)) hc h)
          (onPath_tail (R := fun _ d j => P (T d j) = true → P (T' d j) = true) hc hP)
        exact hrest

/-- The entry that ends a walk is one of those it reads. -/
theorem find_of_pathAll {P : ε → Bool} {root : κ} {w : List ι} {e : ε} {l : ℕ}
    (hall : pathAll next isLeaf T P root w = true)
    (hfind : find next isLeaf T root w = some (e, l)) : P e = true := by
  induction w generalizing root with
  | nil => cases hfind
  | cons i w ih =>
    rw [pathAll, Bool.and_eq_true, Bool.or_eq_true] at hall
    rw [find] at hfind
    by_cases hyes : isLeaf w.length (T root i) = true
    · rw [if_pos hyes] at hfind
      rw [← (Prod.mk.inj (Option.some.inj hfind)).1]
      exact hall.1
    · rw [if_neg hyes] at hfind
      obtain ⟨c, hc, hfind⟩ := Option.bind_eq_some_iff.mp hfind
      have hrest := hall.2.resolve_left hyes
      rw [hc] at hrest
      exact ih hrest hfind

/-! ## Changing one entry of a tree -/

section tree

variable {root k : κ} {n : ℕ} {p : List ι} {i : ι}

/-- In a tree, a path that reads entry `i` of the table at `p` goes through `p` and `i`. -/
theorem Tree.through (htree : Tree next T root n) (hp : walk next T root p = some k)
    (hlen : p.length ≤ n) {w p' : List ι} {r : List ι} (hw : w = p' ++ i :: r)
    (hwlen : w.length ≤ n + 1) (hp' : walk next T root p' = some k) : w = p ++ i :: r := by
  have hlen' : p'.length ≤ n := by
    rw [hw, List.length_append, List.length_cons] at hwlen
    omega
  rw [htree p p' k hlen hlen' hp hp']
  exact hw

/-- What holds of all entries but `i` of the table at `p` holds along every path that does not go
through it. -/
theorem Tree.on_path (htree : Tree next T root n) (hp : walk next T root p = some k)
    (hlen : p.length ≤ n) {R : κ → ι → Prop}
    (hR : ∀ c j, IsTable next T root n c → (c ≠ k ∨ j ≠ i) → R c j)
    {w : List ι} (hw : w.length ≤ n + 1) (hnot : ∀ r, w ≠ p ++ i :: r)
    (q : List ι) (j : ι) (r : List ι) (c : κ) (hqw : w = q ++ j :: r)
    (hc : walk next T root q = some c) : R c j := by
  have hqlen : q.length ≤ n := by
    rw [hqw, List.length_append, List.length_cons] at hw
    omega
  apply hR c j ⟨q, hqlen, hc⟩
  by_contra heq
  push Not at heq
  obtain ⟨rfl, rfl⟩ := heq
  exact hnot r (htree.through hp hlen hqw hw hc)

/-- Tables that agree outside entry `i` of the table at `p` lead the same way on every path
that does not go through it. -/
theorem Tree.walk_of_not_through (htree : Tree next T root n)
    (hp : walk next T root p = some k) (hlen : p.length ≤ n)
    (hsame : ∀ c j, IsTable next T root n c → (c ≠ k ∨ j ≠ i) → next (T' c j) = next (T c j))
    {w : List ι} (hw : w.length ≤ n + 1) (hnot : ∀ r, w ≠ p ++ i :: r) :
    walk next T' root w = walk next T root w :=
  walk_congr (htree.on_path hp hlen hsame hw hnot)

theorem Tree.find_of_not_through (htree : Tree next T root n)
    (hp : walk next T root p = some k) (hlen : p.length ≤ n)
    (hsame : ∀ c j, IsTable next T root n c → (c ≠ k ∨ j ≠ i) → T' c j = T c j)
    {w : List ι} (hw : w.length ≤ n + 1) (hnot : ∀ r, w ≠ p ++ i :: r) :
    find next isLeaf T' root w = find next isLeaf T root w := by
  apply find_congr
  intro q j r c hqw hc
  rw [htree.on_path hp hlen hsame hw hnot q j r c hqw hc]
  exact sameTo_refl _ _

/-! ## Hanging an empty table into a free entry -/

/-- The table `c` without entries is hung into the free entry `i` of the table `k` at `p`. -/
structure Grows (next : ε → Option κ) (T T' : κ → ι → ε) (root : κ) (n : ℕ) (p : List ι) (k : κ)
    (i : ι) (c : κ) : Prop where
  at_path : walk next T root p = some k
  length_lt : p.length < n
  free : next (T k i) = none
  hung : next (T' k i) = some c
  empty : ∀ j, next (T' c j) = none
  same : ∀ d j, IsTable next T root n d → (d ≠ k ∨ j ≠ i) → T' d j = T d j

namespace Grows
variable {c : κ} (h : Grows next T T' root n p k i c) (htree : Tree next T root n)
include h htree

theorem walk_cases {q : List ι} (hq : q.length ≤ n + 1) :
    (q = p ++ [i] ∧ walk next T' root q = some c) ∨
      (q ≠ p ++ [i] ∧ walk next T' root q = walk next T root q) := by
  have hnext (d : κ) (j : ι) (hd : IsTable next T root n d) (hne : d ≠ k ∨ j ≠ i) :
      next (T' d j) = next (T d j) := by rw [h.same d j hd hne]
  by_cases hthrough : ∃ r, q = p ++ i :: r
  · obtain ⟨r, rfl⟩ := hthrough
    have hpath : walk next T' root p = some k := by
      have hplen := h.length_lt
      rw [htree.walk_of_not_through h.at_path hplen.le hnext (by omega), h.at_path]
      intro r' hr'
      have := congrArg List.length hr'
      rw [List.length_append, List.length_cons] at this
      omega
    cases r with
    | nil =>
      left
      refine ⟨rfl, ?_⟩
      rw [walk_snoc hpath, h.hung]
    | cons j r =>
      right
      constructor
      · intro heq
        have := List.append_cancel_left heq
        simp at this
      · rw [walk_append, hpath, walk_append, h.at_path]
        simp [walk, h.hung, h.empty, h.free]
  · right
    push Not at hthrough
    exact ⟨hthrough [], htree.walk_of_not_through h.at_path h.length_lt.le hnext hq hthrough⟩

theorem walk_new : walk next T' root (p ++ [i]) = some c := by
  have hq : (p ++ [i]).length ≤ n + 1 := by
    rw [List.length_append, List.length_singleton]
    exact Nat.succ_le_succ h.length_lt.le
  rcases h.walk_cases htree hq with ⟨-, hc⟩ | ⟨hne, -⟩
  · exact hc
  · exact absurd rfl hne

theorem walk_old {q : List ι} {d : κ} (hq : q.length ≤ n) (hd : walk next T root q = some d) :
    walk next T' root q = some d := by
  rcases h.walk_cases htree (hq.trans n.le_succ) with ⟨rfl, -⟩ | ⟨-, hqw⟩
  · rw [walk_snoc h.at_path, h.free] at hd
    cases hd
  · rw [hqw, hd]

theorem tree (hfresh : ¬ IsTable next T root n c) : Tree next T' root n := by
  intro q q' d hq hq' hd hd'
  rcases h.walk_cases htree (hq.trans n.le_succ) with ⟨hqp, hqc⟩ | ⟨-, hqw⟩
  · rcases h.walk_cases htree (hq'.trans n.le_succ) with ⟨hqp', -⟩ | ⟨-, hqw'⟩
    · rw [hqp, hqp']
    · -- the new table is not reached by an old path
      rw [hqc] at hd
      rw [hqw', ← hd] at hd'
      exact absurd ⟨q', hq', hd'⟩ hfresh
  · rcases h.walk_cases htree (hq'.trans n.le_succ) with ⟨-, hqc'⟩ | ⟨-, hqw'⟩
    · rw [hqc'] at hd'
      rw [hqw, ← hd'] at hd
      exact absurd ⟨q, hq, hd⟩ hfresh
    · rw [hqw] at hd
      rw [hqw'] at hd'
      exact htree q q' d hq hq' hd hd'

/-- The tables are the old ones and the new one. -/
theorem isTable_iff {d : κ} : IsTable next T' root n d ↔ IsTable next T root n d ∨ d = c := by
  constructor
  · rintro ⟨q, hq, hd⟩
    rcases h.walk_cases htree (hq.trans n.le_succ) with ⟨-, hqc⟩ | ⟨-, hqw⟩
    · exact Or.inr (Option.some.inj (hd.symm.trans hqc))
    · exact Or.inl ⟨q, hq, hqw ▸ hd⟩
  · rintro (⟨q, hq, hd⟩ | rfl)
    · exact ⟨q, hq, h.walk_old htree hq hd⟩
    · refine ⟨p ++ [i], ?_, h.walk_new htree⟩
      rw [List.length_append, List.length_singleton]
      exact h.length_lt

variable (hleaf : ∀ l e, l ≠ 0 → isLeaf l e → next e = none)
  (hfree : ∀ l, isLeaf l (T k i) = false) (hempty : ∀ l j, isLeaf l (T' c j) = false)
include hleaf hfree hempty

/-- Through the new table nothing is found, neither before nor after. -/
theorem find_through {r : List ι} (hr : r ≠ []) :
    find next isLeaf T root (p ++ i :: r) = none ∧
      find next isLeaf T' root (p ++ i :: r) = none := by
  constructor
  · rw [find_append hleaf h.at_path (List.cons_ne_nil _ _), find, hfree, h.free]
    rfl
  · obtain ⟨j, r, rfl⟩ := List.exists_cons_of_ne_nil hr
    rw [List.append_cons p i, find_append hleaf (h.walk_new htree) (List.cons_ne_nil _ _), find,
      hempty, h.empty]
    rfl

theorem find_eq {w : List ι} (hw : w.length = n + 1) :
    find next isLeaf T' root w = find next isLeaf T root w := by
  by_cases hthrough : ∃ r, w = p ++ i :: r
  · obtain ⟨r, rfl⟩ := hthrough
    have hr : r ≠ [] := by
      rintro rfl
      have hlt := h.length_lt
      rw [List.length_append, List.length_singleton] at hw
      omega
    obtain ⟨hbefore, hafter⟩ := h.find_through htree hleaf hfree hempty hr
    rw [hbefore, hafter]
  · push Not at hthrough
    exact htree.find_of_not_through h.at_path h.length_lt.le h.same hw.le hthrough

end Grows

/-- The same walks make the same tree. -/
theorem Tree.of_walk (htree : Tree next T root n)
    (hwalk : ∀ q, q.length ≤ n → walk next T' root q = walk next T root q) :
    Tree next T' root n := by
  intro q q' d hq hq' hd hd'
  rw [hwalk q hq] at hd
  rw [hwalk q' hq'] at hd'
  exact htree q q' d hq hq' hd hd'

theorem isTable_congr (hwalk : ∀ q, q.length ≤ n → walk next T' root q = walk next T root q)
    {c : κ} : IsTable next T' root n c ↔ IsTable next T root n c := by
  constructor
  · rintro ⟨q, hq, hc⟩
    exact ⟨q, hq, hwalk q hq ▸ hc⟩
  · rintro ⟨q, hq, hc⟩
    exact ⟨q, hq, (hwalk q hq).trans hc⟩

/-- Tables with the same pointers have the same paths. -/
theorem Tree.congr (htree : Tree next T root n)
    (hsame : ∀ c j, IsTable next T root n c → next (T' c j) = next (T c j)) :
    Tree next T' root n ∧ ∀ q, q.length ≤ n + 1 → walk next T' root q = walk next T root q := by
  have hwalk (q : List ι) (hq : q.length ≤ n + 1) :
      walk next T' root q = walk next T root q := by
    apply walk_congr
    intro p' j r c hpw hc
    apply hsame c j ⟨p', ?_, hc⟩
    rw [hpw, List.length_append, List.length_cons] at hq
    omega
  exact ⟨htree.of_walk fun q hq => hwalk q (hq.trans n.le_succ), hwalk⟩

end tree

end Rhoudveine.Radix
