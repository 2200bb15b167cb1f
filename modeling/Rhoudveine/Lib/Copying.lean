import Mathlib

/-!
# Machines that only copy their memory

The steps of such a machine load cells for the caller and store cells, but nothing they
decide depends on a loaded value.  Two runs with different memories stay in step, and
what they hand out agrees exactly when every loaded cell is known before the load: known
at the start, or stored since.
-/

namespace Rhoudveine.Copying

variable {σ γ ι β ρ : Type*}

/-- What one step does: the next state, its reply, the cells whose values it hands out
and what it then stores, in order. -/
structure Effect (σ ι β ρ : Type*) where
  next : σ
  reply : ρ
  loads : List ι
  stores : List (ι × β)

section store

variable [DecidableEq ι]

def store (m : ι → β) (stores : List (ι × β)) : ι → β :=
  stores.foldl (fun m p => Function.update m p.1 p.2) m

@[simp] theorem store_nil (m : ι → β) : store m [] = m := rfl

@[simp] theorem store_cons (m : ι → β) (p : ι × β) (stores : List (ι × β)) :
    store m (p :: stores) = store (Function.update m p.1 p.2) stores := rfl

@[simp] theorem store_append (m : ι → β) (stores more : List (ι × β)) :
    store m (stores ++ more) = store (store m stores) more := List.foldl_append

theorem store_of_not_mem {m : ι → β} {stores : List (ι × β)} {i : ι}
    (h : i ∉ stores.map Prod.fst) : store m stores i = m i := by
  induction stores generalizing m with
  | nil => rfl
  | cons p stores ih =>
    rw [List.map_cons, List.mem_cons, not_or] at h
    rw [store_cons, ih h.2, Function.update_of_ne h.1]

/-- After the stores two memories agree on the stored cells, and still where they agreed. -/
theorem store_agree {m m' : ι → β} {stores : List (ι × β)} {i : ι}
    (h : m i = m' i ∨ i ∈ stores.map Prod.fst) : store m stores i = store m' stores i := by
  induction stores generalizing m m' with
  | nil =>
    rcases h with h | h
    · exact h
    · exact absurd h List.not_mem_nil
  | cons p stores ih =>
    rw [store_cons, store_cons]
    apply ih
    by_cases hp : i = p.1
    · subst hp
      exact Or.inl (by rw [Function.update_self, Function.update_self])
    · rw [Function.update_of_ne hp, Function.update_of_ne hp]
      rw [List.map_cons, List.mem_cons] at h
      rcases h with h | h | h
      · exact Or.inl h
      · exact absurd h hp
      · exact Or.inr h

end store

/-- The replies of a run with the values handed out, up to the first step that fails. -/
def outputs [DecidableEq ι] (effect : σ → γ → Option (Effect σ ι β ρ)) :
    σ → (ι → β) → List γ → List (Option (ρ × List β))
  | _, _, [] => []
  | s, m, c :: cs =>
    match effect s c with
    | none => [none]
    | some e => some (e.reply, e.loads.map m) :: outputs effect e.next (store m e.stores) cs

/-- Every step of the run only loads cells that are in `known` or were stored before it. -/
def LoadsKnown (effect : σ → γ → Option (Effect σ ι β ρ)) : (known : Set ι) → σ → List γ → Prop
  | _, _, [] => True
  | known, s, c :: cs =>
    ∀ e, effect s c = some e → (∀ i ∈ e.loads, i ∈ known) ∧
      LoadsKnown effect (known ∪ {i | i ∈ e.stores.map Prod.fst}) e.next cs

/-- The memories that agree with `m` on the known cells. -/
def Agree (known : Set ι) (m m' : ι → β) : Prop := ∀ i ∈ known, m i = m' i

variable [DecidableEq ι] {effect : σ → γ → Option (Effect σ ι β ρ)}

theorem Agree.store {known : Set ι} {m m' : ι → β} (h : Agree known m m')
    (stores : List (ι × β)) : Agree (known ∪ {i | i ∈ stores.map Prod.fst})
      (store m stores) (Copying.store m' stores) := by
  intro i hi
  rcases hi with hi | hi
  · exact store_agree (Or.inl (h i hi))
  · exact store_agree (Or.inr hi)

/-- Known loads give the same outputs. -/
theorem outputs_of_agree {known : Set ι} {s : σ} {m m' : ι → β} {cs : List γ}
    (hknown : LoadsKnown effect known s cs) (h : Agree known m m') :
    outputs effect s m cs = outputs effect s m' cs := by
  induction cs generalizing known s m m' with
  | nil => rfl
  | cons c cs ih =>
    cases heffect : effect s c with
    | none => simp only [outputs, heffect]
    | some e =>
      obtain ⟨hloads, hrest⟩ := hknown e heffect
      have hhead : e.loads.map m = e.loads.map m' :=
        List.map_congr_left fun i hi => h i (hloads i hi)
      simp only [outputs, heffect, hhead, ih hrest (h.store e.stores)]

/-- A memory that agrees with a stored one comes from a memory that agrees with the old one. -/
theorem Agree.unstore {known : Set ι} {m n : ι → β} {stores : List (ι × β)}
    (h : Agree (known ∪ {i | i ∈ stores.map Prod.fst}) (Copying.store m stores) n) :
    ∃ m', Agree known m m' ∧ Copying.store m' stores = n := by
  classical
  refine ⟨fun i => if i ∈ stores.map Prod.fst then m i else n i, ?_, ?_⟩
  · intro i hi
    by_cases hmem : i ∈ stores.map Prod.fst
    · exact (if_pos hmem).symm
    · simp only [if_neg hmem]
      rw [← h i (Or.inl hi), store_of_not_mem hmem]
  · funext i
    by_cases hmem : i ∈ stores.map Prod.fst
    · rw [← h i (Or.inr hmem)]
      exact store_agree (Or.inr hmem)
    · rw [store_of_not_mem hmem, if_neg hmem]

/-- The outputs tell nothing about the other cells exactly when the loads are known. -/
theorem outputs_agree_iff [Nontrivial β] {known : Set ι} {s : σ} {m : ι → β} {cs : List γ} :
    (∀ m', Agree known m m' → outputs effect s m cs = outputs effect s m' cs) ↔
      LoadsKnown effect known s cs := by
  constructor
  · intro hall
    induction cs generalizing known s m with
    | nil => trivial
    | cons c cs ih =>
      intro e heffect
      simp only [outputs, heffect, List.cons.injEq, Option.some.injEq, Prod.mk.injEq,
        true_and] at hall
      constructor
      · intro i hi
        by_contra hout
        -- a second memory that differs in the unknown cell only
        obtain ⟨b, hb⟩ := exists_ne (m i)
        have hagree : Agree known m (Function.update m i b) := by
          intro j hj
          have hne : j ≠ i := fun heq => hout (heq ▸ hj)
          exact (Function.update_of_ne hne b m).symm
        have hsame := List.map_inj_left.mp (hall _ hagree).1 i hi
        rw [Function.update_self] at hsame
        exact hb hsame.symm
      · apply ih
        intro n hn
        obtain ⟨m', hm', rfl⟩ := hn.unstore
        exact (hall m' hm').2
  · intro hknown m' h
    exact outputs_of_agree hknown h

end Rhoudveine.Copying
