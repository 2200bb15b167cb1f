import Mathlib

/-!
# Walks through named edges

Nodes whose outgoing edges have names.  A walk follows a list of names from a node.
-/

namespace Rhoudveine.Walk

variable {ν κ : Type*} {find find' : ν → κ → Option ν} {root : ν}

def walk (find : ν → κ → Option ν) : ν → List κ → Option ν
  | n, [] => some n
  | n, x :: xs => (find n x).bind fun m => walk find m xs

theorem walk_append (n : ν) (xs ys : List κ) :
    walk find n (xs ++ ys) = (walk find n xs).bind fun m => walk find m ys := by
  induction xs generalizing n with
  | nil => rfl
  | cons x xs ih =>
    rw [List.cons_append, walk, walk, Option.bind_assoc]
    apply Option.bind_congr
    intro m hm
    exact ih m

/-- The last edge of a walk. -/
theorem walk_concat (n : ν) (xs : List κ) (x : κ) :
    walk find n (xs ++ [x]) = (walk find n xs).bind fun m => find m x := by
  rw [walk_append]
  apply Option.bind_congr
  intro m hm
  change (find m x).bind some = find m x
  exact Option.bind_fun_some _

theorem walk_concat_some {n p : ν} {xs : List κ} (h : walk find n xs = some p) (x : κ) :
    walk find n (xs ++ [x]) = find p x := by
  rw [walk_concat, h, Option.bind_some]

theorem walk_concat_none {n : ν} {xs : List κ} (h : walk find n xs = none) (x : κ) :
    walk find n (xs ++ [x]) = none := by
  rw [walk_concat, h, Option.bind_none]

/-- A walk ends where it starts or behind an edge. -/
theorem walk_end {n m : ν} {xs : List κ} (h : walk find n xs = some m) :
    n = m ∨ ∃ p x, find p x = some m := by
  rcases List.eq_nil_or_concat xs with rfl | ⟨xs, x, rfl⟩
  · exact Or.inl (Option.some.inj h)
  · rw [List.concat_eq_append, walk_concat] at h
    obtain ⟨p, -, hp⟩ := Option.bind_eq_some_iff.mp h
    exact Or.inr ⟨p, x, hp⟩

/-- A walk stays among nodes that the edges do not leave. -/
theorem walk_mem {P : ν → Prop} (hclosed : ∀ n x m, P n → find n x = some m → P m) {n m : ν}
    {xs : List κ} (hn : P n) (h : walk find n xs = some m) : P m := by
  induction xs generalizing n with
  | nil => exact Option.some.inj h ▸ hn
  | cons x xs ih =>
    obtain ⟨q, hq, hrest⟩ := Option.bind_eq_some_iff.mp h
    exact ih (hclosed n x q hn hq) hrest

/-- A walk only depends on the edges of the nodes it can reach. -/
theorem walk_congr {P : ν → Prop} (hclosed : ∀ n x m, P n → find n x = some m → P m)
    (hfind : ∀ n x, P n → find' n x = find n x) {n : ν} (hn : P n) (xs : List κ) :
    walk find' n xs = walk find n xs := by
  induction xs generalizing n with
  | nil => rfl
  | cons x xs ih =>
    rw [walk, walk, hfind n x hn]
    apply Option.bind_congr
    intro m hm
    exact ih (hclosed n x m hn hm)

/-- Edges that are carried over carry over walks. -/
theorem walk_map {μ : Type*} {find' : μ → κ → Option μ} {f : ν → μ}
    (hfind : ∀ n x m, find n x = some m → find' (f n) x = some (f m)) {n m : ν} {xs : List κ}
    (h : walk find n xs = some m) : walk find' (f n) xs = some (f m) := by
  induction xs generalizing n with
  | nil => exact congrArg (fun r => some (f r)) (Option.some.inj h)
  | cons x xs ih =>
    obtain ⟨q, hq, hrest⟩ := Option.bind_eq_some_iff.mp h
    rw [walk, hfind n x q hq, Option.bind_some]
    exact ih hrest

/-! ## Ordered nodes -/

section order

variable [Preorder ν]

theorem walk_le (hlt : ∀ n x m, find n x = some m → n < m) {n m : ν} {xs : List κ}
    (h : walk find n xs = some m) : n ≤ m := by
  induction xs generalizing n with
  | nil => exact (Option.some.inj h).le
  | cons x xs ih =>
    obtain ⟨q, hq, hrest⟩ := Option.bind_eq_some_iff.mp h
    exact (hlt n x q hq).le.trans (ih hrest)

/-- Where edges lead upwards, a walk only uses edges below its end. -/
theorem walk_agree (hlt : ∀ n x m, find n x = some m → n < m) {n p : ν}
    (hagree : ∀ m x, m < p → find m x ≠ none → find' m x = find m x) {xs : List κ}
    (h : walk find n xs = some p) : walk find' n xs = some p := by
  induction xs generalizing n with
  | nil => exact h
  | cons x xs ih =>
    obtain ⟨q, hq, hrest⟩ := Option.bind_eq_some_iff.mp h
    have hnp : n < p := lt_of_lt_of_le (hlt n x q hq) (walk_le hlt hrest)
    have hedge : find' n x = some q := by
      rw [hagree n x hnp (by simp [hq]), hq]
    rw [walk, hedge, Option.bind_some]
    exact ih hrest

end order

/-- Every name on a walk is the name of an edge. -/
theorem walk_names {n m : ν} {xs : List κ} (h : walk find n xs = some m) {x : κ} (hx : x ∈ xs) :
    ∃ q q', find q x = some q' := by
  induction xs generalizing n with
  | nil => cases hx
  | cons y xs ih =>
    obtain ⟨q, hq, hrest⟩ := Option.bind_eq_some_iff.mp h
    rcases List.mem_cons.mp hx with rfl | hx
    · exact ⟨n, q, hq⟩
    · exact ih hrest hx

/-! ## Trees -/

/-- No edge leads to the root and at most one to any other node. -/
structure Tree (find : ν → κ → Option ν) (root : ν) : Prop where
  not_root : ∀ n x, find n x ≠ some root
  unique : ∀ n x n' x' m, find n x = some m → find n' x' = some m → n = n' ∧ x = x'

/-- Where the nodes of `P` have one edge to them, from `P`, and the root none, such a node is
reached in one way. -/
theorem walk_unique {P : ν → Prop} (hback : ∀ n x m, find n x = some m → P m → P n)
    (hroot : P root → ∀ n x, find n x ≠ some root)
    (hunique : ∀ n x n' x' m, P m → find n x = some m → find n' x' = some m → n = n' ∧ x = x')
    {xs ys : List κ} {n : ν} (hn : P n) (hxs : walk find root xs = some n)
    (hys : walk find root ys = some n) : xs = ys := by
  induction xs using List.reverseRecOn generalizing ys n with
  | nil =>
    obtain rfl : root = n := Option.some.inj hxs
    rcases List.eq_nil_or_concat ys with rfl | ⟨ys, y, rfl⟩
    · rfl
    · rw [List.concat_eq_append, walk_concat] at hys
      obtain ⟨m, -, hm⟩ := Option.bind_eq_some_iff.mp hys
      exact absurd hm (hroot hn m y)
  | append_singleton xs x ih =>
    rw [walk_concat] at hxs
    obtain ⟨m, hm, hx⟩ := Option.bind_eq_some_iff.mp hxs
    rcases List.eq_nil_or_concat ys with rfl | ⟨ys, y, rfl⟩
    · obtain rfl : root = n := Option.some.inj hys
      exact absurd hx (hroot hn m x)
    · rw [List.concat_eq_append, walk_concat] at hys
      obtain ⟨m', hm', hy⟩ := Option.bind_eq_some_iff.mp hys
      obtain ⟨rfl, rfl⟩ := hunique m x m' y n hn hx hy
      rw [ih (hback m x n hx hn) hm hm', List.concat_eq_append]

/-- A node of a tree is reached in one way. -/
theorem Tree.walk_inj (h : Tree find root) {xs ys : List κ} {n : ν}
    (hxs : walk find root xs = some n) (hys : walk find root ys = some n) : xs = ys :=
  walk_unique (P := fun _ => True) (fun _ _ _ _ _ => trivial) (fun _ => h.not_root)
    (fun n x n' x' m _ => h.unique n x n' x' m) trivial hxs hys

/-- A new edge to a new node adds one walk. -/
theorem Tree.walk_insert [DecidableEq κ] (h : Tree find root) {p new : ν} {name : κ}
    {init : List κ} (hinit : walk find root init = some p) (hfree : find p name = none)
    (hnew : ∀ xs, walk find root xs ≠ some new) (hleaf : ∀ x, find' new x = none)
    (hedge : find' p name = some new)
    (hother : ∀ n x, n ≠ new → ¬ (n = p ∧ x = name) → find' n x = find n x) (xs : List κ) :
    walk find' root xs = if xs = init ++ [name] then some new else walk find root xs := by
  induction xs using List.reverseRecOn with
  | nil =>
    have hne : [] ≠ init ++ [name] := List.ne_nil_of_length_pos (by simp) |>.symm
    rw [if_neg hne]
    rfl
  | append_singleton xs x ih =>
    rw [walk_concat, ih]
    by_cases hxs : xs = init ++ [name]
    · -- behind the new node
      subst hxs
      have hne : init ++ [name] ++ [x] ≠ init ++ [name] := by
        intro heq
        have := congrArg List.length heq
        simp at this
      have hnone : walk find root (init ++ [name]) = none := by
        rw [walk_concat_some hinit, hfree]
      rw [if_pos rfl, Option.bind_some, hleaf, if_neg hne, walk_concat_none hnone]
    · rw [if_neg hxs]
      cases hwalk : walk find root xs with
      | none =>
        have hne : xs ++ [x] ≠ init ++ [name] := by
          intro heq
          rw [(List.append_inj' heq rfl).1, hinit] at hwalk
          cases hwalk
        rw [if_neg hne, walk_concat_none hwalk, Option.bind_none]
      | some q =>
        rw [Option.bind_some, walk_concat_some hwalk]
        by_cases hplace : q = p ∧ x = name
        · obtain ⟨rfl, rfl⟩ := hplace
          rw [h.walk_inj hwalk hinit, if_pos rfl, hedge]
        · have hne : xs ++ [x] ≠ init ++ [name] := by
            intro heq
            obtain ⟨rfl, hx⟩ := List.append_inj' heq rfl
            rw [hinit] at hwalk
            exact hplace ⟨(Option.some.inj hwalk).symm, List.singleton_inj.mp hx⟩
          have hold : q ≠ new := fun hq => hnew xs (hq ▸ hwalk)
          rw [if_neg hne, hother q x hold hplace]

/-! ## Edges led elsewhere -/

section redirect

variable {P : ν → Prop} {old new : ν} {path : List κ}

/-- Where all edges to a node lead to another one instead, walks that do not pass it stay. -/
theorem walk_redirect (hroot : P root) (hclosed : ∀ n x m, P n → find n x = some m → P m)
    (hkeep : ∀ n x, P n → find n x ≠ some old → find' n x = find n x)
    (honly : ∀ xs, walk find root xs = some old → xs = path) {xs : List κ}
    (hxs : ¬ path <+: xs) : walk find' root xs = walk find root xs := by
  induction xs using List.reverseRecOn with
  | nil => rfl
  | append_singleton xs x ih =>
    have hinit : ¬ path <+: xs := fun hle => hxs (hle.trans (List.prefix_append xs [x]))
    rw [walk_concat, ih hinit]
    cases hwalk : walk find root xs with
    | none => rw [walk_concat_none hwalk, Option.bind_none]
    | some q =>
      have hne : find q x ≠ some old := by
        intro heq
        have hend : walk find root (xs ++ [x]) = some old := by rw [walk_concat_some hwalk, heq]
        rw [honly _ hend] at hxs
        exact hxs List.prefix_rfl
      rw [walk_concat_some hwalk, Option.bind_some,
        hkeep q x (walk_mem hclosed hroot hwalk) hne]

/-- And walks that pass it go on from the other node. -/
theorem walk_through (hroot : P root) (hclosed : ∀ n x m, P n → find n x = some m → P m)
    (hkeep : ∀ n x, P n → find n x ≠ some old → find' n x = find n x)
    (hled : ∀ n x, P n → find n x = some old → find' n x = some new)
    (honly : ∀ xs, walk find root xs = some old → xs = path)
    (hold : walk find root path = some old) (hne : old ≠ root) (xs : List κ) :
    walk find' root (path ++ xs) = walk find' new xs := by
  have hpath : walk find' root path = some new := by
    rcases List.eq_nil_or_concat path with rfl | ⟨init, x, rfl⟩
    · exact absurd (Option.some.inj hold).symm hne
    · rw [List.concat_eq_append] at hold honly ⊢
      have hlast := hold
      rw [walk_concat] at hlast
      obtain ⟨q, hq, hedge⟩ := Option.bind_eq_some_iff.mp hlast
      have hshort : ¬ init ++ [x] <+: init := by
        intro hle
        have hlen := hle.length_le
        rw [List.length_append, List.length_singleton] at hlen
        omega
      have hinit := (walk_redirect hroot hclosed hkeep honly hshort).trans hq
      rw [walk_concat_some hinit, hled q x (walk_mem hclosed hroot hq) hedge]
  rw [walk_append, hpath, Option.bind_some]

end redirect

end Rhoudveine.Walk
