import Mathlib

/-!
# Runs of a labelled transition relation

`Run step s is s'` holds when the labels `is` can be executed one after the other
from `s` and end in `s'`.  For a deterministic system, `Always step P s is` says that
every step of the run satisfies `P`.
-/

namespace Rhoudveine

variable {σ ι : Type*} {step : σ → ι → σ → Prop}

inductive Run (step : σ → ι → σ → Prop) : σ → List ι → σ → Prop
  | nil (s : σ) : Run step s [] s
  | cons {s t u : σ} {i : ι} {is : List ι} : step s i t → Run step t is u → Run step s (i :: is) u

namespace Run

/-- An invariant of every step is an invariant of every run. -/
theorem invariant {P : σ → Prop} (hstep : ∀ s i t, P s → step s i t → P t)
    {s u : σ} {is : List ι} (h : Run step s is u) (hs : P s) : P u := by
  induction h with
  | nil => exact hs
  | cons h _ ih => exact ih (hstep _ _ _ hs h)

theorem append {s t u : σ} {is js : List ι} (h : Run step s is t) (h' : Run step t js u) :
    Run step s (is ++ js) u := by
  induction h with
  | nil => exact h'
  | cons h _ ih => exact .cons h (ih h')

theorem snoc {s t u : σ} {is : List ι} {i : ι} (h : Run step s is t) (h' : step t i u) :
    Run step s (is ++ [i]) u := h.append (.cons h' (.nil u))

/-- A run whose states satisfy an invariant, seen through another relation. -/
theorem simulate {κ : Type*} {step' : σ → κ → σ → Prop} {P : σ → Prop} {f : ι → κ}
    (hstep : ∀ s i t, P s → step s i t → P t ∧ step' s (f i) t) {s t : σ} {is : List ι}
    (h : Run step s is t) (hs : P s) : P t ∧ Run step' s (is.map f) t := by
  induction h with
  | nil => exact ⟨hs, .nil _⟩
  | cons h _ ih =>
    obtain ⟨ht, h'⟩ := hstep _ _ _ hs h
    obtain ⟨hu, hrest⟩ := ih ht
    exact ⟨hu, .cons h' hrest⟩

/-- A run of a relation is a run of every weaker one. -/
theorem mono {step' : σ → ι → σ → Prop} (hstep : ∀ s i t, step s i t → step' s i t)
    {s t : σ} {is : List ι} (h : Run step s is t) : Run step' s is t := by
  induction h with
  | nil => exact .nil _
  | cons h _ ih => exact .cons (hstep _ _ _ h) ih

/-- A transitive relation that every step satisfies is satisfied by every run. -/
theorem rel {R : σ → σ → Prop} (hrefl : ∀ s, R s s) (htrans : ∀ s t u, R s t → R t u → R s u)
    (hstep : ∀ s i t, step s i t → R s t) {s u : σ} {is : List ι} (h : Run step s is u) : R s u := by
  induction h with
  | nil => exact hrefl _
  | cons h _ ih => exact htrans _ _ _ (hstep _ _ _ h) ih

end Run

/-- Every step of the run of `is` from `s` satisfies `P`, up to the first label that has
no successor. -/
def Always (step : σ → ι → Option σ) (P : σ → ι → Prop) : σ → List ι → Prop
  | _, [] => True
  | s, i :: is => P s i ∧ ∀ t, step s i = some t → Always step P t is

/-- If `P` and `Q` agree on every step from a state with the invariant `I`, and steps that
satisfy `Q` keep `I`, then a run satisfies `P` throughout exactly when it satisfies `Q`
throughout.  `D` restricts the runs. -/
theorem always_iff {step : σ → ι → Option σ} {I : σ → Prop} {D P Q : σ → ι → Prop}
    (hstep : ∀ s i, I s → D s i → (P s i ↔ Q s i))
    (hkeep : ∀ s i t, I s → D s i → Q s i → step s i = some t → I t)
    {s : σ} {is : List ι} (hs : I s) (hD : Always step D s is) :
    Always step P s is ↔ Always step Q s is := by
  induction is generalizing s with
  | nil => exact Iff.rfl
  | cons i is ih =>
    obtain ⟨hDi, hDs⟩ := hD
    have hPQ := hstep s i hs hDi
    constructor
    · rintro ⟨hP, hrest⟩
      refine ⟨hPQ.mp hP, fun t ht => ?_⟩
      exact (ih (hkeep s i t hs hDi (hPQ.mp hP) ht) (hDs t ht)).mp (hrest t ht)
    · rintro ⟨hQ, hrest⟩
      refine ⟨hPQ.mpr hQ, fun t ht => ?_⟩
      exact (ih (hkeep s i t hs hDi hQ ht) (hDs t ht)).mpr (hrest t ht)

theorem Always.of_forall {step : σ → ι → Option σ} {P : σ → ι → Prop} (h : ∀ s i, P s i) (s : σ)
    (is : List ι) : Always step P s is := by
  induction is generalizing s with
  | nil => trivial
  | cons i is ih => exact ⟨h s i, fun t _ => ih t⟩

theorem Always.cons {step : σ → ι → Option σ} {P : σ → ι → Prop} {s t : σ} {i : ι} {is : List ι}
    (hstep : step s i = some t) (hP : P s i) (hrest : Always step P t is) :
    Always step P s (i :: is) := by
  refine ⟨hP, fun t' ht' => ?_⟩
  obtain rfl := Option.some.inj (hstep.symm.trans ht')
  exact hrest

end Rhoudveine
