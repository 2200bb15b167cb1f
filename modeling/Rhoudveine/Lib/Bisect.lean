import Mathlib

/-!
# Binary search

The shape of a C loop `while (lo <= hi)` that halves its range.  A comparison `cmp i` is `lt`
when the search goes on behind `i`, `gt` when it goes on before `i`, and `eq` at a hit.
-/

namespace Rhoudveine.Bisect

def bisect (cmp : ℤ → Ordering) : (rounds : ℕ) → (lo hi : ℤ) → Option ℤ
  | 0, _, _ => none
  | rounds + 1, lo, hi =>
    if hi < lo then none
    else
      match cmp (lo + (hi - lo) / 2) with
      | .lt => bisect cmp rounds (lo + (hi - lo) / 2 + 1) hi
      | .gt => bisect cmp rounds lo (lo + (hi - lo) / 2 - 1)
      | .eq => some (lo + (hi - lo) / 2)

/-- The places the search looks at. -/
def probes (cmp : ℤ → Ordering) : (rounds : ℕ) → (lo hi : ℤ) → List ℤ
  | 0, _, _ => []
  | rounds + 1, lo, hi =>
    if hi < lo then []
    else
      (lo + (hi - lo) / 2) ::
        match cmp (lo + (hi - lo) / 2) with
        | .lt => probes cmp rounds (lo + (hi - lo) / 2 + 1) hi
        | .gt => probes cmp rounds lo (lo + (hi - lo) / 2 - 1)
        | .eq => []

/-- The comparison is that with a place in an ascending order. -/
structure Ascending (cmp : ℤ → Ordering) (lo hi : ℤ) : Prop where
  lt : ∀ i j, lo ≤ i → i ≤ j → j ≤ hi → cmp j = .lt → cmp i = .lt
  gt : ∀ i j, lo ≤ i → i ≤ j → j ≤ hi → cmp i = .gt → cmp j = .gt

variable {cmp cmp' : ℤ → Ordering} {rounds : ℕ} {lo hi i k : ℤ}

theorem Ascending.mono (h : Ascending cmp lo hi) {lo' hi' : ℤ} (hlo : lo ≤ lo') (hhi : hi' ≤ hi) :
    Ascending cmp lo' hi' :=
  ⟨fun i j hi hij hj => h.lt i j (hlo.trans hi) hij (hj.trans hhi),
    fun i j hi hij hj => h.gt i j (hlo.trans hi) hij (hj.trans hhi)⟩

/-! ## One round -/

theorem bisect_empty (h : hi < lo) : bisect cmp rounds lo hi = none := by
  cases rounds with
  | zero => rfl
  | succ rounds => exact if_pos h

theorem bisect_lt (h : lo ≤ hi) (hmid : cmp (lo + (hi - lo) / 2) = .lt) :
    bisect cmp (rounds + 1) lo hi = bisect cmp rounds (lo + (hi - lo) / 2 + 1) hi := by
  rw [bisect, if_neg (not_lt.mpr h), hmid]

theorem bisect_gt (h : lo ≤ hi) (hmid : cmp (lo + (hi - lo) / 2) = .gt) :
    bisect cmp (rounds + 1) lo hi = bisect cmp rounds lo (lo + (hi - lo) / 2 - 1) := by
  rw [bisect, if_neg (not_lt.mpr h), hmid]

theorem bisect_eq (h : lo ≤ hi) (hmid : cmp (lo + (hi - lo) / 2) = .eq) :
    bisect cmp (rounds + 1) lo hi = some (lo + (hi - lo) / 2) := by
  rw [bisect, if_neg (not_lt.mpr h), hmid]

theorem mem_probes (h : lo ≤ hi) :
    i ∈ probes cmp (rounds + 1) lo hi ↔ i = lo + (hi - lo) / 2 ∨
      cmp (lo + (hi - lo) / 2) = .lt ∧ i ∈ probes cmp rounds (lo + (hi - lo) / 2 + 1) hi ∨
      cmp (lo + (hi - lo) / 2) = .gt ∧ i ∈ probes cmp rounds lo (lo + (hi - lo) / 2 - 1) := by
  rw [probes, if_neg (not_lt.mpr h), List.mem_cons]
  cases cmp (lo + (hi - lo) / 2) <;> simp

theorem probes_between (h : i ∈ probes cmp rounds lo hi) : lo ≤ i ∧ i ≤ hi := by
  induction rounds generalizing lo hi with
  | zero => cases h
  | succ rounds ih =>
    by_cases hle : lo ≤ hi
    · rcases (mem_probes hle).mp h with rfl | ⟨-, hi⟩ | ⟨-, hi⟩
      · omega
      · have hbetween := ih hi
        omega
      · have hbetween := ih hi
        omega
    · rw [probes, if_pos (not_le.mp hle)] at h
      cases h

/-! ## What is found -/

theorem bisect_sound (h : bisect cmp rounds lo hi = some i) : lo ≤ i ∧ i ≤ hi ∧ cmp i = .eq := by
  induction rounds generalizing lo hi with
  | zero => cases h
  | succ rounds ih =>
    by_cases hle : lo ≤ hi
    · cases hmid : cmp (lo + (hi - lo) / 2) with
      | lt =>
        rw [bisect_lt hle hmid] at h
        obtain ⟨hlo, hhi, heq⟩ := ih h
        exact ⟨by omega, hhi, heq⟩
      | gt =>
        rw [bisect_gt hle hmid] at h
        obtain ⟨hlo, hhi, heq⟩ := ih h
        exact ⟨hlo, by omega, heq⟩
      | eq =>
        rw [bisect_eq hle hmid] at h
        obtain rfl := Option.some.inj h
        exact ⟨by omega, by omega, hmid⟩
    · rw [bisect_empty (not_le.mp hle)] at h
      cases h

/-- In ascending order a search finds what is there. -/
theorem bisect_complete (hasc : Ascending cmp lo hi) (hlo : lo ≤ k) (hhi : k ≤ hi)
    (hk : cmp k = .eq) (hrounds : hi - lo < rounds) : (bisect cmp rounds lo hi).isSome := by
  induction rounds generalizing lo hi with
  | zero => omega
  | succ rounds ih =>
    have hle := hlo.trans hhi
    cases hmid : cmp (lo + (hi - lo) / 2) with
    | lt =>
      rw [bisect_lt hle hmid]
      have hbehind : lo + (hi - lo) / 2 < k := by
        by_contra hnot
        have hlt := hasc.lt k _ hlo (not_lt.mp hnot) (by omega) hmid
        rw [hk] at hlt
        cases hlt
      exact ih (hasc.mono (by omega) le_rfl) (by omega) hhi (by omega)
    | gt =>
      rw [bisect_gt hle hmid]
      have hbefore : k < lo + (hi - lo) / 2 := by
        by_contra hnot
        have hgt := hasc.gt _ k (by omega) (not_lt.mp hnot) hhi hmid
        rw [hk] at hgt
        cases hgt
      exact ih (hasc.mono le_rfl (by omega)) hlo (by omega) (by omega)
    | eq =>
      rw [bisect_eq hle hmid]
      rfl

/-- A search only depends on the places it looks at. -/
theorem bisect_congr (h : ∀ i ∈ probes cmp rounds lo hi, cmp' i = cmp i) :
    bisect cmp' rounds lo hi = bisect cmp rounds lo hi := by
  induction rounds generalizing lo hi with
  | zero => rfl
  | succ rounds ih =>
    by_cases hle : lo ≤ hi
    · have hsame := h _ ((mem_probes hle).mpr (Or.inl rfl))
      cases hmid : cmp (lo + (hi - lo) / 2) with
      | lt =>
        rw [bisect_lt hle hmid, bisect_lt hle (hsame.trans hmid)]
        exact ih fun i hi => h i ((mem_probes hle).mpr (Or.inr (Or.inl ⟨hmid, hi⟩)))
      | gt =>
        rw [bisect_gt hle hmid, bisect_gt hle (hsame.trans hmid)]
        exact ih fun i hi => h i ((mem_probes hle).mpr (Or.inr (Or.inr ⟨hmid, hi⟩)))
      | eq => rw [bisect_eq hle hmid, bisect_eq hle (hsame.trans hmid)]
    · rw [bisect_empty (not_le.mp hle), bisect_empty (not_le.mp hle)]

/-! ## Searches that are misled -/

/-- `cmp'` sends the search before some places behind which it should go on. -/
structure Misleads (cmp cmp' : ℤ → Ordering) : Prop where
  wrong : ∀ i, cmp' i ≠ cmp i → cmp i = .lt ∧ cmp' i = .gt

theorem Misleads.same (h : Misleads cmp cmp') (hi : cmp' i = .eq) : cmp i = .eq := by
  by_contra hne
  have hgt := (h.wrong i fun heq => hne (heq ▸ hi)).2
  rw [hi] at hgt
  cases hgt

/-- A search that was misled once does not come back. -/
theorem Misleads.agree_of_found (h : Misleads cmp cmp') (hasc : Ascending cmp lo hi)
    (hfound : bisect cmp' rounds lo hi = some k) :
    ∀ i ∈ probes cmp rounds lo hi, cmp' i = cmp i := by
  induction rounds generalizing lo hi with
  | zero => cases hfound
  | succ rounds ih =>
    by_cases hle : lo ≤ hi
    · by_cases hsame : cmp' (lo + (hi - lo) / 2) = cmp (lo + (hi - lo) / 2)
      · intro i hi
        rcases (mem_probes hle).mp hi with rfl | ⟨hmid, hi⟩ | ⟨hmid, hi⟩
        · exact hsame
        · rw [bisect_lt hle (hsame.trans hmid)] at hfound
          exact ih (hasc.mono (by omega) le_rfl) hfound i hi
        · rw [bisect_gt hle (hsame.trans hmid)] at hfound
          exact ih (hasc.mono le_rfl (by omega)) hfound i hi
      · obtain ⟨hlt, hgt⟩ := h.wrong _ hsame
        rw [bisect_gt hle hgt] at hfound
        obtain ⟨hlo, hhi, heq⟩ := bisect_sound hfound
        have hbefore := hasc.lt k _ hlo (by omega) (by omega) hlt
        rw [h.same heq] at hbefore
        cases hbefore
    · rw [bisect_empty (not_le.mp hle)] at hfound
      cases hfound

/-- A search for what is there finds it exactly when it is misled nowhere on its way. -/
theorem Misleads.isSome_iff (h : Misleads cmp cmp') (hasc : Ascending cmp lo hi) (hlo : lo ≤ k)
    (hhi : k ≤ hi) (hk : cmp k = .eq) (hrounds : hi - lo < rounds) :
    (bisect cmp' rounds lo hi).isSome ↔ ∀ i ∈ probes cmp rounds lo hi, cmp' i = cmp i := by
  constructor
  · intro hsome
    obtain ⟨i, hfound⟩ := Option.isSome_iff_exists.mp hsome
    exact h.agree_of_found hasc hfound
  · intro hagree
    rw [bisect_congr hagree]
    exact bisect_complete hasc hlo hhi hk hrounds

end Rhoudveine.Bisect
