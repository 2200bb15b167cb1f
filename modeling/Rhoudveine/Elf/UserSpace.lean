import Rhoudveine.Elf.Loader
import Rhoudveine.Mm.Budget

/-!
# The user pages of a load

Which frame each page of the load has, and what has been written to it.  `UserSpace` relates
this view to the memory of the machine; mapping a page and storing a byte keep it.
-/

namespace Rhoudveine.Elf
open Mm Words Radix

/-! ## Frames and offsets -/

theorem toNat_pageOf (a : UInt64) : (pageOf a).toNat = a.toNat / 4096 * 4096 :=
  toNat_and_not_low a 0xFFF (k := 12) rfl

theorem pageOf_aligned (a : UInt64) : (pageOf a).toNat % 4096 = 0 := by
  rw [toNat_pageOf]
  omega

theorem inFrame_pageOf (a : UInt64) : InFrame (pageOf a) a := by
  rw [inFrame_iff (pageOf_aligned a), toNat_pageOf]
  omega

theorem pageOf_of_inFrame {k x : UInt64} (hk : k.toNat % 4096 = 0) (hx : InFrame k x) :
    pageOf x = k := eq_of_inFrame (pageOf_aligned x) hk (inFrame_pageOf x) hx

/-- `a & 0xFFF`. -/
def inPage (a : UInt64) : UInt64 := a &&& 0xFFF

theorem toNat_inPage (a : UInt64) : (inPage a).toNat = a.toNat % 4096 :=
  toNat_and_low a 0xFFF (k := 12) rfl

theorem toNat_frame_add {f : UInt64} (hf : f.toNat % 4096 = 0) (a : UInt64) :
    (f + inPage a).toNat = f.toNat + a.toNat % 4096 := by
  have := f.toNat_lt
  rw [UInt64.toNat_add, toNat_inPage]
  omega

theorem pageOf_frame_add {f : UInt64} (hf : f.toNat % 4096 = 0) (a : UInt64) :
    pageOf (f + inPage a) = f := by
  apply UInt64.toNat_inj.mp
  rw [toNat_pageOf, toNat_frame_add hf]
  omega

/-- The lower half of the canonical addresses. -/
def UserHalf (v : UInt64) : Prop := v.toNat < 2 ^ 47

instance (v : UInt64) : Decidable (UserHalf v) := inferInstanceAs (Decidable (_ < _))

/-- Addresses of the user half with the same walk lie in the same page. -/
theorem page_of_indices {a a' : UInt64} (ha : UserHalf a) (ha' : UserHalf a')
    (h : indices a = indices a') : a.toNat / 4096 = a'.toNat / 4096 := by
  unfold UserHalf at ha ha'
  rw [indices_eq_iff] at h
  omega

/-! ## A store through the page tables -/

/-- Two states with the same tables. -/
structure SameTables (vm vm' : Vm) : Prop where
  cr3 : vm'.cr3 = vm.cr3
  pfa : vm'.pfa = vm.pfa
  entry : ∀ k, vm.IsTable k → ∀ j, vm'.entry k j = vm.entry k j

theorem SameTables.root {vm vm' : Vm} (h : SameTables vm vm') : vm'.root = vm.root := by
  rw [Vm.root, Vm.root, h.cr3]

theorem SameTables.walk {vm vm' : Vm} (h : SameTables vm vm') {q : List (Fin 512)}
    (hq : q.length ≤ 3) :
    Radix.walk nextTable vm'.entry vm'.root q = Radix.walk nextTable vm.entry vm.root q := by
  rw [h.root]
  apply walk_congr
  intro p j r c hpq hc
  have hlen : p.length ≤ 3 := by
    rw [hpq, List.length_append, List.length_cons] at hq
    omega
  rw [h.entry c (Vm.isTable_of_walk hlen hc)]

theorem SameTables.isTable {vm vm' : Vm} (h : SameTables vm vm') (k : UInt64) :
    vm'.IsTable k ↔ vm.IsTable k := by
  constructor
  · rintro ⟨q, hq, hk⟩
    exact ⟨q, hq, h.walk hq ▸ hk⟩
  · rintro ⟨q, hq, hk⟩
    exact ⟨q, hq, (h.walk hq).trans hk⟩

theorem SameTables.lookup {vm vm' : Vm} (h : SameTables vm vm') (v : UInt64) :
    vm'.lookup v = vm.lookup v := by
  rw [Vm.lookup, Vm.lookup, h.root]
  apply find_congr
  intro p j r c hpw hc
  have hlen : p.length ≤ 3 := by
    have := length_indices v
    rw [hpw, List.length_append, List.length_cons] at this
    omega
  rw [h.entry c (Vm.isTable_of_walk hlen hc)]
  exact sameTo_refl _ _

theorem SameTables.treeOk {vm vm' : Vm} (h : SameTables vm vm') (hok : vm.TreeOk) : vm'.TreeOk where
  wf := h.pfa ▸ hok.wf
  tree p q k hp hq hpk hqk := by
    rw [h.walk hp] at hpk
    rw [h.walk hq] at hqk
    exact hok.tree p q k hp hq hpk hqk
  not_free k hk := by
    rw [h.pfa]
    exact hok.not_free k ((h.isTable k).mp hk)

theorem SameTables.noLarge {vm vm' : Vm} (h : SameTables vm vm') {w : List (Fin 512)}
    (hw : w.length = 4) (hno : vm.NoLarge w) : vm'.NoLarge w := by
  intro p j r k hpw hr hk hbit
  have hlen : p.length ≤ 3 := by
    rw [hpw, List.length_append, List.length_cons] at hw
    omega
  rw [h.walk hlen] at hk
  rw [h.entry k (Vm.isTable_of_walk hlen hk)] at hbit ⊢
  exact hno p j r k hpw hr hk hbit

theorem SameTables.budget {vm vm' : Vm} (h : SameTables vm vm') : vm'.budget = vm.budget :=
  budget_eq (by rw [h.pfa]) fun _ hq => h.walk hq

/-- A store to a frame that is no table. -/
theorem sameTables_store (vm : Vm) {p : UInt64} (hp : ¬ vm.IsTable (pageOf p)) (b : UInt8) :
    SameTables vm { vm with mem := vm.mem.store8 p b } := by
  refine ⟨rfl, rfl, fun k hk j => ?_⟩
  rw [Vm.entry_eq, Vm.entry_eq]
  apply Memory.load64_congr
  intro x hx
  apply Function.update_of_ne
  rintro rfl
  apply hp
  rw [pageOf_of_inFrame hk.aligned (inFrame_of_inRange_entryAddr hk.aligned hx)]
  exact hk

/-! ## The invariant -/

/-- The load has started in `vm₀`; `F` says which frame it gave to the page of each walk, and
`written` which bytes of these pages have been stored since the page got its frame. -/
structure UserSpace (vm₀ vm : Vm) (F : List (Fin 512) → Option UInt64)
    (written : UInt64 → Option UInt8) : Prop where
  ok : vm.TreeOk
  noLarge : ∀ w, w.length = 4 → vm₀.NoLarge w → vm.NoLarge w
  table : ∀ k, vm.IsTable k → vm₀.IsTable k ∨ FreeLow vm₀.pfa k
  free : ∀ q, FreeFrame vm.pfa q → FreeFrame vm₀.pfa q
  frame_free : ∀ w f, F w = some f → FreeLow vm₀.pfa f
  frame_used : ∀ w f, F w = some f → ¬ FreeFrame vm.pfa f
  frame_not_table : ∀ w f, F w = some f → ¬ vm.IsTable f
  inj : ∀ w w' f, F w = some f → F w' = some f → w = w'
  mapped : ∀ v f, F (indices v) = some f →
    ∃ flags, flags &&& paddrMask = 0 ∧ vm.lookup v = some (f ||| flags, 0)
  unmapped : ∀ v, F (indices v) = none → vm.lookup v = vm₀.lookup v
  mem : ∀ x, ¬ vm.IsTable (pageOf x) →
    (FreeLow vm₀.pfa (pageOf x) → FreeFrame vm.pfa (pageOf x)) → vm.mem x = vm₀.mem x
  content : ∀ a f, UserHalf a → F (indices a) = some f →
    vm.mem (f + inPage a) = (written a).getD (vm₀.mem (f + inPage a))

theorem UserSpace.start {vm : Vm} (hok : vm.TreeOk) (written : UInt64 → Option UInt8) :
    UserSpace vm vm (fun _ => none) written where
  ok := hok
  noLarge _ _ h := h
  table _ h := Or.inl h
  free _ h := h
  frame_free _ _ h := by cases h
  frame_used _ _ h := by cases h
  frame_not_table _ _ h := by cases h
  inj _ _ _ h := by cases h
  mapped _ _ h := by cases h
  unmapped _ _ := rfl
  mem _ _ _ := rfl
  content _ _ _ h := by cases h

section steps

variable {vm₀ vm : Vm} {F : List (Fin 512) → Option UInt64} {written : UInt64 → Option UInt8}
  (h : UserSpace vm₀ vm F written)
include h

theorem UserSpace.frame_aligned {w : List (Fin 512)} {f : UInt64} (hf : F w = some f) :
    f.toNat % 4096 = 0 := (h.frame_free w f hf).1

/-- Where the byte at a mapped address is. -/
theorem UserSpace.physAt {a f : UInt64} (hf : F (indices a) = some f) :
    vm.physAt a = some (f + inPage a) := by
  obtain ⟨flags, hflags, hlookup⟩ := h.mapped a f hf
  have hfree := h.frame_free _ f hf
  have hlt : f.toNat < 2 ^ 52 := by
    have := hfree.2.1
    omega
  obtain ⟨p, hp, hpv⟩ := physAt_of_lookup hfree.1 hlt hflags hlookup
  rw [hp, Option.some.injEq]
  apply UInt64.toNat_inj.mp
  rw [hpv, toNat_frame_add hfree.1]

/-- A byte stored in a mapped page. -/
theorem UserSpace.store {a f : UInt64} (ha : UserHalf a) (hf : F (indices a) = some f) (b : UInt8) :
    UserSpace vm₀ (storeVirt vm a b) F (Function.update written a (some b)) ∧
      SameTables vm (storeVirt vm a b) := by
  have hal := h.frame_aligned hf
  have hpage := pageOf_frame_add hal a
  have hstore : storeVirt vm a b = { vm with mem := vm.mem.store8 (f + inPage a) b } := by
    rw [storeVirt, h.physAt hf]
  have hsame : SameTables vm (storeVirt vm a b) := by
    rw [hstore]
    apply sameTables_store
    rw [hpage]
    exact h.frame_not_table _ f hf
  have hmem (x : UInt64) (hx : x ≠ f + inPage a) : (storeVirt vm a b).mem x = vm.mem x := by
    rw [hstore]
    exact Function.update_of_ne hx _ _
  refine ⟨⟨hsame.treeOk h.ok, fun w hw hno => hsame.noLarge hw (h.noLarge w hw hno), ?_, ?_,
    h.frame_free, ?_, ?_, h.inj, ?_, ?_, ?_, ?_⟩, hsame⟩
  · exact fun k hk => h.table k ((hsame.isTable k).mp hk)
  · intro q hq
    rw [hsame.pfa] at hq
    exact h.free q hq
  · intro w g hg
    rw [hsame.pfa]
    exact h.frame_used w g hg
  · exact fun w g hg hk => h.frame_not_table w g hg ((hsame.isTable g).mp hk)
  · intro v g hg
    rw [hsame.lookup]
    exact h.mapped v g hg
  · intro v hv
    rw [hsame.lookup]
    exact h.unmapped v hv
  · intro x htable hfree
    have hx : x ≠ f + inPage a := by
      rintro rfl
      rw [hpage, hsame.pfa] at hfree
      exact h.frame_used _ f hf (hfree (h.frame_free _ f hf))
    rw [hsame.isTable] at htable
    rw [hsame.pfa] at hfree
    rw [hmem x hx, h.mem x htable hfree]
  · intro a' g ha' hg
    have halg := h.frame_aligned hg
    by_cases heq : a' = a
    · rw [heq] at hg ⊢
      obtain rfl := Option.some.inj (hf.symm.trans hg)
      rw [hstore, Function.update_self]
      exact Function.update_self _ _ _
    · -- another address has another frame or another offset
      have hx : g + inPage a' ≠ f + inPage a := by
        intro hsum
        have hfg : g = f := by
          have hpage' := pageOf_frame_add halg a'
          rw [hsum, hpage] at hpage'
          exact hpage'.symm
        subst hfg
        have hindices := h.inj _ _ g hg hf
        have hpages := page_of_indices ha' ha hindices
        have hsum' := congrArg UInt64.toNat hsum
        rw [toNat_frame_add halg, toNat_frame_add halg] at hsum'
        apply heq
        apply UInt64.toNat_inj.mp
        omega
      rw [hmem _ hx, Function.update_of_ne heq]
      exact h.content a' g ha' hg

/-- A page given a fresh frame.  When `map_page` runs out of frames the page keeps what it
had. -/
theorem UserSpace.map {v flags : UInt64} (hno : vm₀.NoLarge (indices v))
    (hpres : bit flags 0 = true) (hflags : flags &&& paddrMask = 0)
    (hz : (pfaAllocLow vm.pfa).1 ≠ 0) {done : Bool} {vm' : Vm}
    (heq : mapPage { vm with pfa := (pfaAllocLow vm.pfa).2 } (pfaAllocLow vm.pfa).1 v flags =
      (done, vm')) :
    UserSpace vm₀ vm'
      (if done then Function.update F (indices v) (some (pfaAllocLow vm.pfa).1) else F)
      (fun a => if done ∧ indices a = indices v then none else written a) ∧
    (done, vm'.budget) = vm.budget.spend.mapPage (indices v) := by
  obtain ⟨hfree, -⟩ := (pfaAllocLow_lowest h.ok.wf).2 hz
  have hfreeFrame := freeFrame_pfaAllocLow h.ok.wf
  have hwf := pfaAllocLow_wellFormed h.ok.wf
  have hbudget := (budget_alloc h.ok hz).2
  generalize (pfaAllocLow vm.pfa).1 = f at hz heq hfree hfreeFrame ⊢
  generalize (pfaAllocLow vm.pfa).2 = pfa at heq hwf hfreeFrame hbudget
  have hok : Vm.TreeOk { vm with pfa := pfa } :=
    ⟨hwf, h.ok.tree, fun k hk hkfree => h.ok.not_free k hk ((hfreeFrame k).mp hkfree).1⟩
  have hno' : Vm.NoLarge { vm with pfa := pfa } (indices v) :=
    h.noLarge _ (length_indices v) hno
  obtain ⟨hok', -, hkeeps, hlookup⟩ := mapPage_spec hok hfree.1 hpres hno' heq
  have hmapBudget := mapPage_budget hok hfree.1 hpres hno'
  rw [heq, hbudget] at hmapBudget
  have hfNotTable : ¬ vm.IsTable f := fun hk => h.ok.not_free f hk (Or.inl hfree)
  have hfree' (q : UInt64) (hq : FreeFrame vm'.pfa q) : FreeFrame vm.pfa q ∧ q ≠ f :=
    (hfreeFrame q).mp (hkeeps.free q hq)
  have htable' (k : UInt64) (hk : vm'.IsTable k) :
      vm.IsTable k ∨ (FreeLow vm.pfa k ∧ k ≠ f) := by
    rcases hkeeps.table k hk with hk | hk
    · exact Or.inl hk
    · obtain ⟨hk', hne⟩ := (hfreeFrame k).mp (Or.inl hk)
      exact Or.inr ⟨freeLow_of_freeFrame hk' hk.2.1, hne⟩
  -- memory outside the tables is as before the call
  have hmem (x : UInt64) (hx : ¬ vm'.IsTable (pageOf x)) : vm'.mem x = vm.mem x := by
    apply hkeeps.mem
    intro k hk hxk
    rw [pageOf_of_inFrame hk.aligned hxk] at hx
    exact hx hk
  have hcases {w : List (Fin 512)} {g : UInt64}
      (hg : (if done then Function.update F (indices v) (some f) else F) w = some g) :
      (done = true ∧ w = indices v ∧ g = f) ∨ (F w = some g ∧ (done = true → w ≠ indices v)) := by
    cases done with
    | false => exact Or.inr ⟨hg, fun h => absurd h (by simp)⟩
    | true =>
      rw [if_pos rfl] at hg
      by_cases hw : w = indices v
      · rw [hw, Function.update_self] at hg
        exact Or.inl ⟨rfl, hw, (Option.some.inj hg).symm⟩
      · rw [Function.update_of_ne hw] at hg
        exact Or.inr ⟨hg, fun _ => hw⟩
  have hused (g : UInt64) {w : List (Fin 512)} (hg : F w = some g) : g ≠ f := by
    rintro rfl
    exact h.frame_used w g hg (Or.inl hfree)
  refine ⟨⟨hok', ?_, ?_, ?_, ?_, ?_, ?_, ?_, ?_, ?_, ?_, ?_⟩, hmapBudget.symm⟩
  · exact fun w hw hnow => hkeeps.noLarge w hw (h.noLarge w hw hnow)
  · intro k hk
    rcases htable' k hk with hk | ⟨hk, -⟩
    · exact h.table k hk
    · exact Or.inr (freeLow_of_freeFrame (h.free k (Or.inl hk)) hk.2.1)
  · exact fun q hq => h.free q (hfree' q hq).1
  · intro w g hg
    rcases hcases hg with ⟨-, -, rfl⟩ | ⟨hg, -⟩
    · exact freeLow_of_freeFrame (h.free g (Or.inl hfree)) hfree.2.1
    · exact h.frame_free w g hg
  · intro w g hg hgfree
    obtain ⟨hgfree, hne⟩ := hfree' g hgfree
    rcases hcases hg with ⟨-, -, rfl⟩ | ⟨hg, -⟩
    · exact hne rfl
    · exact h.frame_used w g hg hgfree
  · intro w g hg hk
    rcases hcases hg with ⟨-, -, rfl⟩ | ⟨hg, -⟩
    · rcases htable' g hk with hk | ⟨-, hne⟩
      · exact hfNotTable hk
      · exact hne rfl
    · rcases htable' g hk with hk | ⟨hk, -⟩
      · exact h.frame_not_table w g hg hk
      · exact h.frame_used w g hg (Or.inl hk)
  · intro w w' g hg hg'
    rcases hcases hg with ⟨-, hw, rfl⟩ | ⟨hgF, -⟩
    · rcases hcases hg' with ⟨-, hw', -⟩ | ⟨hgF', -⟩
      · rw [hw, hw']
      · exact absurd rfl (hused g hgF')
    · rcases hcases hg' with ⟨-, -, hgf⟩ | ⟨hgF', -⟩
      · exact absurd hgf (hused g hgF)
      · exact h.inj w w' g hgF hgF'
  · intro a g hg
    rcases hcases hg with ⟨hdone, hw, rfl⟩ | ⟨hg, hne⟩
    · exact ⟨flags, hflags, by rw [hlookup, if_pos ⟨hdone, hw⟩]⟩
    · obtain ⟨flags', hflags', hlookup'⟩ := h.mapped a g hg
      refine ⟨flags', hflags', ?_⟩
      rw [hlookup, if_neg fun hand => hne hand.1 hand.2]
      exact hlookup'
  · intro a hg
    have hnot : ¬ (done = true ∧ indices a = indices v) := by
      rintro ⟨rfl, ha⟩
      rw [if_pos rfl, ha, Function.update_self] at hg
      cases hg
    have hg' : F (indices a) = none := by
      cases done with
      | false => exact hg
      | true =>
        rw [if_pos rfl, Function.update_of_ne fun ha => hnot ⟨rfl, ha⟩] at hg
        exact hg
    rw [hlookup, if_neg hnot]
    exact h.unmapped a hg'
  · intro x hx hxfree
    rw [hmem x hx]
    apply h.mem x
    · exact fun hk => hx (hkeeps.isTable hk)
    · exact fun hlow => (hfree' _ (hxfree hlow)).1
  · intro a g ha hg
    have hpage (hal : g.toNat % 4096 = 0) := pageOf_frame_add hal a
    rcases hcases hg with ⟨hdone, hw, rfl⟩ | ⟨hg, hne⟩
    · have hp := hpage hfree.1
      have hnot : ¬ vm'.IsTable (pageOf (g + inPage a)) := by
        rw [hp]
        intro hk
        rcases htable' g hk with hk | ⟨-, hne⟩
        · exact hfNotTable hk
        · exact hne rfl
      rw [hmem _ hnot, if_pos ⟨hdone, hw⟩, Option.getD_none]
      apply h.mem
      · rw [hp]
        exact hfNotTable
      · rw [hp]
        exact fun _ => Or.inl hfree
    · have hp := hpage (h.frame_aligned hg)
      have hnot : ¬ vm'.IsTable (pageOf (g + inPage a)) := by
        rw [hp]
        intro hk
        rcases htable' g hk with hk | ⟨hk, -⟩
        · exact h.frame_not_table _ g hg hk
        · exact h.frame_used _ g hg (Or.inl hk)
      rw [hmem _ hnot, if_neg fun hand => hne hand.1 hand.2]
      exact h.content a g ha hg

end steps

end Rhoudveine.Elf
