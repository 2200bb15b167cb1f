import Rhoudveine.Lib.Run

/-!
# First-fit allocation

A system in which elements of a linear order are free, and in which steps take the least of
them.  A step that takes nothing has a label without a place.
-/

namespace Rhoudveine.FirstFit

variable {σ ι α : Type*} {step : σ → ι → σ → Prop} {free : σ → Set α} {place : ι → α}
  {P : σ → Prop} {s t : σ} {is : List ι}

/-- Steps only take what is free, and nothing is given back. -/
def OnlyFree (step : σ → ι → σ → Prop) (free : σ → Set α) (place : ι → α) (Takes : ι → Prop)
    (P : σ → Prop) : Prop :=
  ∀ s i t, P s → step s i t → P t ∧ free t ⊆ free s ∧ (Takes i → place i ∈ free s)

theorem OnlyFree.mem_of_run {Takes : ι → Prop} (h : OnlyFree step free place Takes P)
    (hrun : Run step s is t) (hs : P s) : ∀ i ∈ is, Takes i → place i ∈ free s := by
  induction hrun with
  | nil => exact fun i hi => absurd hi List.not_mem_nil
  | cons hfirst _ ih =>
    obtain ⟨ht, hsub, htaken⟩ := h _ _ _ hs hfirst
    intro i hi hi'
    rcases List.mem_cons.mp hi with rfl | hi
    · exact htaken hi'
    · exact hsub (ih ht i hi hi')

/-- Where something is free, a step can take the least of it and leave the rest. -/
def Progress [Preorder α] (step : σ → ι → σ → Prop) (free : σ → Set α) (place : ι → α)
    (P : σ → Prop) : Prop :=
  ∀ s, P s → (free s).Nonempty →
    ∃ i t, step s i t ∧ P t ∧ IsLeast (free s) (place i) ∧ free t = free s \ {place i}

/-- Whatever is free is taken in the end. -/
theorem Progress.exists_run [LinearOrder α] [LocallyFiniteOrderBot α]
    (h : Progress step free place P) (hs : P s) {c : α} (hc : c ∈ free s) :
    ∃ is t, Run step s is t ∧ ∃ i ∈ is, place i = c := by
  -- the number of free elements below `c` decreases until `c` is the least
  induction hn : (free s ∩ Set.Iio c).ncard using Nat.strong_induction_on generalizing s with
  | h n ih =>
    obtain ⟨i, t, hstep, ht, hleast, hfree⟩ := h s hs ⟨c, hc⟩
    by_cases hic : place i = c
    · exact ⟨[i], t, .cons hstep (.nil t), i, List.mem_singleton_self i, hic⟩
    · have hlt : place i < c := lt_of_le_of_ne (hleast.2 hc) hic
      have hct : c ∈ free t := by
        rw [hfree]
        exact ⟨hc, fun heq => hic heq.symm⟩
      have hsmaller : (free t ∩ Set.Iio c).ncard < n := by
        rw [← hn]
        apply Set.ncard_lt_ncard
        · refine ⟨fun x hx => ?_, fun hsub => ?_⟩
          · rw [hfree] at hx
            exact ⟨hx.1.1, hx.2⟩
          · have hmem := hsub ⟨hleast.1, hlt⟩
            rw [hfree] at hmem
            exact hmem.1.2 rfl
        · exact (Set.finite_Iio c).subset Set.inter_subset_right
      obtain ⟨is, u, hrun, j, hj, hplace⟩ := ih _ hsmaller ht hct rfl
      exact ⟨i :: is, u, .cons hstep hrun, j, List.mem_cons_of_mem i hj, hplace⟩

end Rhoudveine.FirstFit
