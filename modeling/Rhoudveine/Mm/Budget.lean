import Rhoudveine.Mm.MapPage

/-!
# A budget of frames

How far `map_page` gets depends only on the number of free low frames and on which tables
exist.  `Budget` keeps just these, and `map_page` simulates its operations: frames run out in
the one exactly when they run out in the other.
-/

namespace Rhoudveine.Mm
open Words Radix

/-- The free low frames, and the paths that lead to a table. -/
@[ext]
structure Budget where
  free : ℕ
  tables : List (Fin 512) → Bool

namespace Budget

/-- A table at `p`, for one frame if there is none yet. -/
def table (b : Budget) (p : List (Fin 512)) : Bool × Budget :=
  if b.tables p then (true, b)
  else if b.free = 0 then (false, b)
  else (true, ⟨b.free - 1, fun q => b.tables q || q == p⟩)

/-- The tables a page with the indices `w` needs. -/
def mapPage (b : Budget) (w : List (Fin 512)) : Bool × Budget :=
  match b.table (w.take 1) with
  | (false, b) => (false, b)
  | (true, b) =>
    match b.table (w.take 2) with
    | (false, b) => (false, b)
    | (true, b) => b.table (w.take 3)

/-- One frame for the contents of a page. -/
def spend (b : Budget) : Budget := { b with free := b.free - 1 }

/-- A frame and a mapping for each page, up to the first page without a frame.  The calls of
`map_page` are listed with whether they succeeded. -/
def load (b : Budget) : List UInt64 → Bool × List (UInt64 × Bool) × Budget
  | [] => (true, [], b)
  | v :: vs =>
    if b.free = 0 then (false, [], b)
    else
      let mapped := b.spend.mapPage (indices v)
      let rest := mapped.2.load vs
      (rest.1, (v, mapped.1) :: rest.2.1, rest.2.2)

/-- The calls are for pages that were asked for. -/
theorem mem_of_mem_load {b : Budget} {pages : List UInt64} {c : UInt64 × Bool}
    (hc : c ∈ (b.load pages).2.1) : c.1 ∈ pages := by
  induction pages generalizing b with
  | nil => cases hc
  | cons v pages ih =>
    rw [load] at hc
    split at hc
    · cases hc
    · rcases List.mem_cons.mp hc with rfl | hc
      · exact List.mem_cons_self
      · exact List.mem_cons_of_mem _ (ih hc)

/-- As long as frames are left, each page has its call. -/
theorem load_keys {b : Budget} {pages : List UInt64} (h : (b.load pages).1 = true) :
    (b.load pages).2.1.map Prod.fst = pages := by
  induction pages generalizing b with
  | nil => rfl
  | cons v pages ih =>
    rw [load] at h ⊢
    split
    · rename_i hz
      rw [if_pos hz] at h
      cases h
    · rename_i hz
      rw [if_neg hz] at h
      rw [List.map_cons, ih h]

/-- Pages loaded after one another. -/
theorem load_append (b : Budget) (pages pages' : List UInt64) :
    b.load (pages ++ pages') =
      if (b.load pages).1 then
        (((b.load pages).2.2.load pages').1,
          (b.load pages).2.1 ++ ((b.load pages).2.2.load pages').2.1,
          ((b.load pages).2.2.load pages').2.2)
      else b.load pages := by
  induction pages generalizing b with
  | nil => rfl
  | cons v pages ih =>
    rw [List.cons_append, load, load]
    by_cases hz : b.free = 0
    · rw [if_pos hz, if_pos hz]
      rfl
    · rw [if_neg hz, if_neg hz]
      dsimp only
      rw [ih]
      split
      · rfl
      · rfl

/-- All pages got their frame and their tables. -/
def Loads (b : Budget) (pages : List UInt64) : Prop :=
  (b.load pages).1 = true ∧ ∀ c ∈ (b.load pages).2.1, c.2 = true

theorem loads_append {b : Budget} {pages pages' : List UInt64} :
    b.Loads (pages ++ pages') ↔ b.Loads pages ∧ (b.load pages).2.2.Loads pages' := by
  unfold Loads
  rw [load_append]
  by_cases h : (b.load pages).1 = true
  · rw [if_pos h]
    simp only [List.mem_append, or_imp, forall_and, h, true_and]
    tauto
  · rw [if_neg h]
    simp [h]

theorem load_append_budget {b : Budget} {pages : List UInt64} (h : b.Loads pages)
    (pages' : List UInt64) :
    (b.load (pages ++ pages')).2.2 = ((b.load pages).2.2.load pages').2.2 := by
  rw [load_append, if_pos h.1]

theorem table_of_pos {b : Budget} (h : 0 < b.free) (p : List (Fin 512)) :
    (b.table p).1 = true ∧ b.free ≤ (b.table p).2.free + 1 := by
  unfold table
  split
  · exact ⟨rfl, Nat.le_succ _⟩
  · rw [if_neg h.ne']
    exact ⟨rfl, by dsimp only; omega⟩

theorem mapPage_of_three {b : Budget} (h : 3 ≤ b.free) (w : List (Fin 512)) :
    (b.mapPage w).1 = true ∧ b.free ≤ (b.mapPage w).2.free + 3 := by
  unfold mapPage
  obtain ⟨h₁, hfree₁⟩ := b.table_of_pos (by omega) (w.take 1)
  generalize b.table (w.take 1) = t₁ at h₁ hfree₁ ⊢
  obtain ⟨_, b₁⟩ := t₁
  dsimp only at h₁ hfree₁
  subst h₁
  obtain ⟨h₂, hfree₂⟩ := b₁.table_of_pos (by omega) (w.take 2)
  dsimp only
  generalize b₁.table (w.take 2) = t₂ at h₂ hfree₂ ⊢
  obtain ⟨_, b₂⟩ := t₂
  dsimp only at h₂ hfree₂
  subst h₂
  obtain ⟨h₃, hfree₃⟩ := b₂.table_of_pos (by omega) (w.take 3)
  exact ⟨h₃, by dsimp only; omega⟩

theorem table_free (b : Budget) (p : List (Fin 512)) : b.free ≤ (b.table p).2.free + 1 := by
  by_cases h : 0 < b.free
  · exact (b.table_of_pos h p).2
  · omega

theorem mapPage_free (b : Budget) (w : List (Fin 512)) : b.free ≤ (b.mapPage w).2.free + 3 := by
  have h₁ := b.table_free (w.take 1)
  unfold mapPage
  generalize b.table (w.take 1) = t₁ at h₁ ⊢
  obtain ⟨_ | _, b₁⟩ := t₁
  · dsimp only at h₁ ⊢
    omega
  have h₂ := b₁.table_free (w.take 2)
  dsimp only at h₁ ⊢
  generalize b₁.table (w.take 2) = t₂ at h₂ ⊢
  obtain ⟨_ | _, b₂⟩ := t₂
  · dsimp only at h₂ ⊢
    omega
  have h₃ := b₂.table_free (w.take 3)
  dsimp only at h₂ ⊢
  omega

/-- A page takes at most four frames. -/
theorem load_free (b : Budget) (pages : List UInt64) :
    b.free ≤ (b.load pages).2.2.free + 4 * pages.length := by
  induction pages generalizing b with
  | nil => exact le_rfl
  | cons v pages ih =>
    have hspend : b.spend.free = b.free - 1 := rfl
    have hmap := b.spend.mapPage_free (indices v)
    have hrest := ih (b.spend.mapPage (indices v)).2
    rw [load, List.length_cons]
    split
    · dsimp only
      omega
    · dsimp only
      omega

/-- Four frames a page are enough. -/
theorem loads_of_le {b : Budget} {pages : List UInt64} (h : 4 * pages.length ≤ b.free) :
    b.Loads pages := by
  induction pages generalizing b with
  | nil => exact ⟨rfl, by simp [load]⟩
  | cons v pages ih =>
    rw [List.length_cons] at h
    have hspend : b.spend.free = b.free - 1 := rfl
    obtain ⟨hdone, hfree⟩ := b.spend.mapPage_of_three (by omega) (indices v)
    obtain ⟨hok, hcalls⟩ := ih (b := (b.spend.mapPage (indices v)).2) (by omega)
    unfold Loads
    rw [load, if_neg (by omega)]
    exact ⟨hok, List.forall_mem_cons.mpr ⟨hdone, hcalls⟩⟩

end Budget

/-- The budget of a state. -/
def Vm.budget (vm : Vm) : Budget where
  free := vm.pfa.lowFreeCount.toNat
  tables p := decide (p.length ≤ 3) && (walk nextTable vm.entry vm.root p).isSome

theorem budget_free (vm : Vm) : vm.budget.free = vm.pfa.lowFreeCount.toNat := rfl

theorem budget_tables (vm : Vm) {p : List (Fin 512)} (hp : p.length ≤ 3) :
    vm.budget.tables p = (walk nextTable vm.entry vm.root p).isSome := by
  change (decide (p.length ≤ 3) && _) = _
  rw [decide_eq_true hp, Bool.true_and]

theorem budget_tables_of_long (vm : Vm) {p : List (Fin 512)} (hp : ¬ p.length ≤ 3) :
    vm.budget.tables p = false := by
  change (decide (p.length ≤ 3) && _) = _
  rw [decide_eq_false hp, Bool.false_and]

/-- States with as many free frames and the same walks have one budget. -/
theorem budget_eq {vm vm' : Vm} (hfree : vm'.pfa.lowFreeCount.toNat = vm.pfa.lowFreeCount.toNat)
    (hwalk : ∀ q, q.length ≤ 3 →
      walk nextTable vm'.entry vm'.root q = walk nextTable vm.entry vm.root q) :
    vm'.budget = vm.budget := by
  apply Budget.ext
  · exact hfree
  · funext q
    by_cases hq : q.length ≤ 3
    · rw [budget_tables _ hq, budget_tables _ hq, hwalk q hq]
    · rw [budget_tables_of_long _ hq, budget_tables_of_long _ hq]

/-- The budget after `pfa_alloc_low`. -/
theorem budget_alloc {vm : Vm} (hok : vm.TreeOk) (hz : (pfaAllocLow vm.pfa).1 ≠ 0) :
    vm.budget.free ≠ 0 ∧ Vm.budget { vm with pfa := (pfaAllocLow vm.pfa).2 } = vm.budget.spend := by
  rcases pfaAllocLow_count hok.wf with ⟨-, hcount⟩ | ⟨hz', -⟩
  · constructor
    · rw [budget_free]
      omega
    · apply Budget.ext
      · change (pfaAllocLow vm.pfa).2.lowFreeCount.toNat = vm.pfa.lowFreeCount.toNat - 1
        omega
      · rfl
  · exact absurd hz' hz

theorem budget_zero {vm : Vm} (hok : vm.TreeOk) (hz : (pfaAllocLow vm.pfa).1 = 0) :
    vm.budget.free = 0 := by
  rcases pfaAllocLow_count hok.wf with ⟨hz', -⟩ | ⟨-, hcount⟩
  · exact absurd hz hz'
  · exact hcount

/-- One level of `map_page` takes what a table costs. -/
theorem descend_budget {vm₀ vm : Vm} {flags : UInt64} {p : List (Fin 512)} {k : UInt64}
    (h : Reached vm₀ vm flags p k) (hlen : p.length < 3) {i : Fin 512} {r : List (Fin 512)}
    (hw : (p ++ i :: r).length = 4) (hno : vm₀.NoLarge (p ++ i :: r)) :
    vm.budget.table (p ++ [i]) =
      ((descend vm flags k i).1.isSome, (descend vm flags k i).2.budget) := by
  have hlen' : (p ++ [i]).length ≤ 3 := by
    rw [List.length_append, List.length_singleton]
    omega
  have htables : vm.budget.tables (p ++ [i]) = (nextTable (vm.entry k i)).isSome := by
    rw [budget_tables vm hlen', walk_snoc h.walk]
  rcases descend_cases vm flags k i with ⟨hpres, heq⟩ | ⟨hnot, hz, heq⟩ | ⟨hnot, hz, heq⟩
  · -- present: the walk is unchanged, so the budget is
    have hlarge := h.not_large hlen hw hno hpres
    obtain ⟨-, hext, hwalk⟩ := orEntry_spec h.ok h.walk hlen flags hlarge
    have hsome : nextTable (vm.entry k i) = some (vm.entry k i &&& paddrMask) := by
      rw [nextTable, hpres, hlarge]
      rfl
    have hsame : (descend vm flags k i).2.budget = vm.budget := by
      rw [heq]
      apply budget_eq
      · rw [Vm.setEntry_pfa]
      · intro q hq
        rw [hext.root, hwalk q hq]
    rw [hsame, heq, Budget.table, htables, hsome, Option.isSome_some, if_pos rfl, Option.isSome_some]
  · -- not present, no frame left
    have hzero := budget_zero h.ok hz
    rw [heq, Budget.table, htables, nextTable_of_not_present hnot, pfaAllocLow_of_zero h.ok.wf hz,
      if_neg (by simp), if_pos hzero]
    rfl
  · -- a new table takes one frame and adds one path
    obtain ⟨vm', hvm'⟩ : ∃ vm', (vm.clearFrame (pfaAllocLow vm.pfa).1 (pfaAllocLow vm.pfa).2).setEntry
        k i (tableEntry (pfaAllocLow vm.pfa).1 flags) = vm' := ⟨_, rfl⟩
    obtain ⟨-, hext, hnew, hother⟩ := newEntry_spec h.ok h.walk hlen flags hnot hz hvm'
    have hpfa : vm'.pfa = (pfaAllocLow vm.pfa).2 := by
      rw [← hvm', Vm.setEntry_pfa, Vm.clearFrame_pfa]
    rw [hvm'] at heq
    rcases pfaAllocLow_count h.ok.wf with ⟨-, hcount⟩ | ⟨hz', -⟩
    · have hpos : ¬ vm.budget.free = 0 := by
        rw [budget_free]
        omega
      have hbudget : vm'.budget =
          ⟨vm.budget.free - 1, fun q => vm.budget.tables q || q == p ++ [i]⟩ := by
        apply Budget.ext
        · rw [budget_free, hpfa]
          dsimp only
          rw [budget_free]
          omega
        · funext q
          dsimp only
          by_cases hqlen : q.length ≤ 3
          · rw [budget_tables _ hqlen, budget_tables _ hqlen]
            by_cases hq : q = p ++ [i]
            · rw [hq, hnew]
              simp
            · rw [hext.root, hother q hqlen hq]
              simp [hq]
          · have hq : q ≠ p ++ [i] := by
              rintro rfl
              exact hqlen hlen'
            rw [budget_tables_of_long _ hqlen, budget_tables_of_long _ hqlen]
            simp [hq]
      rw [heq, Budget.table, htables, nextTable_of_not_present hnot, if_neg (by simp), if_neg hpos,
        hbudget]
      rfl
    · exact absurd hz' hz

/-- `map_page` runs out of frames exactly when the budget does. -/
theorem mapPage_budget {vm : Vm} (hok : vm.TreeOk) {physAddr virtAddr flags : UInt64}
    (hphys : physAddr.toNat % 4096 = 0) (hpres : bit flags 0 = true)
    (hno : vm.NoLarge (indices virtAddr)) :
    vm.budget.mapPage (indices virtAddr) =
      ((mapPage vm physAddr virtAddr flags).1, (mapPage vm physAddr virtAddr flags).2.budget) := by
  have h₀ := Reached.start hok flags
  have hbudget₀ := descend_budget h₀ (by norm_num) rfl hno
  have htake₁ : (indices virtAddr).take 1 = [] ++ [tableIndex virtAddr 39] := rfl
  have htake₂ : (indices virtAddr).take 2 =
      [] ++ [tableIndex virtAddr 39] ++ [tableIndex virtAddr 30] := rfl
  have htake₃ : (indices virtAddr).take 3 =
      [] ++ [tableIndex virtAddr 39] ++ [tableIndex virtAddr 30] ++ [tableIndex virtAddr 21] := rfl
  unfold Budget.mapPage Mm.mapPage
  rw [htake₁, hbudget₀]
  rcases h₀.descend (by norm_num) rfl hno with ⟨heq, -⟩ | ⟨k₁, vm₁, heq, h₁⟩
  · rw [heq]
    rfl
  rw [heq, htake₂]
  dsimp only [Option.isSome_some]
  rw [descend_budget h₁ (by norm_num) rfl hno]
  rcases h₁.descend (by norm_num) rfl hno with ⟨heq, -⟩ | ⟨k₂, vm₂, heq, h₂⟩
  · rw [heq]
    rfl
  rw [heq, htake₃]
  dsimp only [Option.isSome_some]
  rw [descend_budget h₂ (by norm_num) rfl hno]
  rcases h₂.descend (by norm_num) rfl hno with ⟨heq, -⟩ | ⟨k₃, vm₃, heq, h₃⟩
  · rw [heq]
    rfl
  rw [heq]
  dsimp only [Option.isSome_some]
  -- the leaf write changes no table
  obtain ⟨vm', hvm'⟩ : ∃ vm', vm₃.setEntry k₃ (tableIndex virtAddr 12) (physAddr ||| flags) = vm' :=
    ⟨_, rfl⟩
  obtain ⟨-, -, hkeeps, -, -, hwalk⟩ := h₃.leaf rfl (tableIndex virtAddr 12) hphys hpres hvm'
  have hsame : vm'.budget = vm₃.budget := by
    apply budget_eq
    · rw [← hvm', Vm.setEntry_pfa]
    · intro q hq
      rw [hkeeps.root, ← h₃.ext.root, hwalk q hq]
  rw [hvm', hsame]

end Rhoudveine.Mm
