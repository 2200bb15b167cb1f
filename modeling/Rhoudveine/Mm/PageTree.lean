import Rhoudveine.Mm.Paging

/-!
# The page tables as a tree

Each table frame is reached by one path and no table frame is free (`TreeOk`); a leaf with
`PAGE_USER` has it on its whole path (`UserOk`).  `descend` keeps this and changes no
translation; the leaf write of `map_page` changes the translation of one page.
-/

namespace Rhoudveine.Mm
open Words Radix

/-! ## Entries in memory -/

/-- `x` is a byte of the frame at `k`. -/
def InFrame (k x : UInt64) : Prop := Memory.InRange k 4096 x

theorem inFrame_iff {k x : UInt64} (hk : k.toNat % 4096 = 0) :
    InFrame k x ↔ x.toNat / 4096 = k.toNat / 4096 := by
  have := k.toNat_lt
  rw [InFrame, Memory.inRange_iff (by omega)]
  omega

/-- Different frames have no byte in common. -/
theorem eq_of_inFrame {k k' x : UInt64} (hk : k.toNat % 4096 = 0) (hk' : k'.toNat % 4096 = 0)
    (hx : InFrame k x) (hx' : InFrame k' x) : k = k' := by
  rw [inFrame_iff hk] at hx
  rw [inFrame_iff hk'] at hx'
  apply UInt64.toNat_inj.mp
  omega

theorem toNat_entryAddr {k : UInt64} (hk : k.toNat % 4096 = 0) (i : Fin 512) :
    (entryAddr k i).toNat = k.toNat + 8 * i := by
  have h8 : (8 : UInt64).toNat = 8 := rfl
  have hi := i.isLt
  have := k.toNat_lt
  rw [entryAddr, UInt64.toNat_add, UInt64.toNat_mul, h8, UInt64.toNat_ofNat',
    Nat.mod_eq_of_lt (by omega : (i : ℕ) < 2 ^ 64), Nat.mod_eq_of_lt (by omega : 8 * (i : ℕ) < 2 ^ 64),
    Nat.mod_eq_of_lt (by omega)]

theorem inRange_entryAddr {k x : UInt64} (hk : k.toNat % 4096 = 0) (i : Fin 512) :
    Memory.InRange (entryAddr k i) 8 x ↔
      k.toNat + 8 * i ≤ x.toNat ∧ x.toNat < k.toNat + 8 * i + 8 := by
  have hi := i.isLt
  have := k.toNat_lt
  have haddr := toNat_entryAddr hk i
  rw [Memory.inRange_iff (by omega), haddr]

theorem inFrame_of_inRange_entryAddr {k x : UInt64} (hk : k.toNat % 4096 = 0) {i : Fin 512}
    (hx : Memory.InRange (entryAddr k i) 8 x) : InFrame k x := by
  rw [inRange_entryAddr hk] at hx
  have hi := i.isLt
  rw [inFrame_iff hk]
  omega

theorem Vm.entry_eq (vm : Vm) (k : UInt64) (i : Fin 512) :
    vm.entry k i = vm.mem.load64 (entryAddr k i) := rfl

theorem Vm.setEntry_mem (vm : Vm) (k : UInt64) (i : Fin 512) (e : UInt64) :
    (vm.setEntry k i e).mem = vm.mem.store64 (entryAddr k i) e := rfl

@[simp] theorem Vm.setEntry_pfa (vm : Vm) (k : UInt64) (i : Fin 512) (e : UInt64) :
    (vm.setEntry k i e).pfa = vm.pfa := rfl

@[simp] theorem Vm.clearFrame_pfa (vm : Vm) (frame : UInt64) (pfa : Pfa) :
    (vm.clearFrame frame pfa).pfa = pfa := rfl

theorem setEntry_mem_of_not_inFrame (vm : Vm) {k x : UInt64} (hk : k.toNat % 4096 = 0)
    (i : Fin 512) (e : UInt64) (hx : ¬ InFrame k x) : (vm.setEntry k i e).mem x = vm.mem x := by
  rw [Vm.setEntry_mem, Memory.store64_of_not_inRange]
  intro h
  exact hx (inFrame_of_inRange_entryAddr hk h)

@[simp] theorem entry_setEntry (vm : Vm) (k : UInt64) (i : Fin 512) (e : UInt64) :
    (vm.setEntry k i e).entry k i = e := by
  rw [Vm.entry_eq, Vm.setEntry_mem, Memory.load64_store64]

theorem entry_setEntry_of_ne (vm : Vm) {k c : UInt64} (hk : k.toNat % 4096 = 0)
    (hc : c.toNat % 4096 = 0) {i j : Fin 512} (e : UInt64) (hne : c ≠ k ∨ j ≠ i) :
    (vm.setEntry k i e).entry c j = vm.entry c j := by
  rw [Vm.entry_eq, Vm.entry_eq, Vm.setEntry_mem]
  apply Memory.load64_congr
  intro x hx
  apply Memory.store64_of_not_inRange
  intro hx'
  have hi := i.isLt
  have hj := j.isLt
  rw [inRange_entryAddr hc] at hx
  rw [inRange_entryAddr hk] at hx'
  rcases hne with hne | hne
  · apply hne
    apply UInt64.toNat_inj.mp
    omega
  · apply hne
    apply Fin.ext
    omega

theorem Vm.clearFrame_mem (vm : Vm) (frame : UInt64) (pfa : Pfa) :
    (vm.clearFrame frame pfa).mem = vm.mem.memset frame 0 4096 := by
  rw [Vm.clearFrame]

theorem entry_clearFrame_self (vm : Vm) {f : UInt64} (hf : f.toNat % 4096 = 0) (pfa : Pfa)
    (j : Fin 512) : (vm.clearFrame f pfa).entry f j = 0 := by
  rw [Vm.entry_eq, Vm.clearFrame_mem]
  apply Memory.load64_of_zero
  intro x hx
  exact Memory.memset_of_inRange vm.mem 0 (inFrame_of_inRange_entryAddr hf hx)

theorem entry_clearFrame_of_ne (vm : Vm) {f c : UInt64} (hf : f.toNat % 4096 = 0)
    (hc : c.toNat % 4096 = 0) (hne : c ≠ f) (pfa : Pfa) (j : Fin 512) :
    (vm.clearFrame f pfa).entry c j = vm.entry c j := by
  rw [Vm.entry_eq, Vm.entry_eq, Vm.clearFrame_mem]
  apply Memory.load64_congr
  intro x hx
  apply Memory.memset_of_not_inRange
  intro hxf
  exact hne (eq_of_inFrame hc hf (inFrame_of_inRange_entryAddr hc hx) hxf)

/-! ## Bits of an entry -/

theorem bit_paddrMask (i : ℕ) : bit paddrMask i = (decide (12 ≤ i) && decide (i < 52)) := by
  by_cases hi : i < 64
  · revert i
    decide
  · rw [bit_of_ge _ (by omega), decide_eq_false (by omega : ¬ i < 52), Bool.and_false]

theorem bit_pagePresent (i : ℕ) : bit pagePresent i = decide (0 = i) := bit_two_pow rfl i

theorem bit_pageRw (i : ℕ) : bit pageRw i = decide (1 = i) := bit_two_pow rfl i

theorem bit_parentFlags (flags : UInt64) (i : ℕ) :
    bit (parentFlags flags) i = (bit flags i && (decide (i = 2) || decide (i = 3) || decide (i = 4))) := by
  have huser := bit_two_pow (m := pageUser) (k := 2) rfl i
  have hpwt := bit_two_pow (m := pagePwt) (k := 3) rfl i
  have hpcd := bit_two_pow (m := pagePcd) (k := 4) rfl i
  rw [parentFlags, bit_or, bit_and, bit_and, bit_or, huser, hpwt, hpcd]
  cases bit flags i <;> grind

theorem present_iff {e : UInt64} : e &&& pagePresent = 0 ↔ bit e 0 = false := and_two_pow_eq_zero rfl

theorem toNat_and_paddrMask_mod (e : UInt64) : (e &&& paddrMask).toNat % 4096 = 0 := by
  apply Nat.eq_of_testBit_eq
  intro i
  rw [Nat.zero_testBit, show 4096 = 2 ^ 12 from rfl, Nat.testBit_mod_two_pow]
  have h := bit_and e paddrMask i
  rw [bit_paddrMask] at h
  rw [show (e &&& paddrMask).toNat.testBit i = bit (e &&& paddrMask) i from rfl, h]
  by_cases hi : i < 12
  · rw [decide_eq_false (by omega : ¬ 12 ≤ i), Bool.false_and, Bool.and_false, Bool.and_false]
  · rw [decide_eq_false hi, Bool.false_and]

theorem nextTable_aligned {e c : UInt64} (h : nextTable e = some c) : c.toNat % 4096 = 0 := by
  unfold nextTable at h
  split_ifs at h
  rw [← Option.some.inj h]
  exact toNat_and_paddrMask_mod e

theorem nextTable_of_not_present {e : UInt64} (h : bit e 0 = false) : nextTable e = none := by
  rw [nextTable, h]
  rfl

theorem nextTable_zero : nextTable 0 = none := rfl

theorem isLeaf_of_not_present {l : ℕ} {e : UInt64} (h : bit e 0 = false) : isLeaf l e = false := by
  unfold isLeaf
  split <;> simp [h]

/-- Above the last level only large pages are leaves. -/
theorem isLeaf_of_not_large {l : ℕ} {e : UInt64} (hl : l ≠ 0) (h : bit e 7 = false) :
    isLeaf l e = false := by
  unfold isLeaf
  split <;> simp_all

theorem nextTable_of_isLeaf (l : ℕ) (e : UInt64) (hl : l ≠ 0) (h : isLeaf l e = true) :
    nextTable e = none := by
  have hlarge : bit e 7 = true := by
    by_contra hno
    rw [isLeaf_of_not_large hl (Bool.eq_false_iff.mpr hno)] at h
    cases h
  rw [nextTable, hlarge, Bool.not_true, Bool.and_false]
  rfl

/-- The parent flags change neither presence, size nor address. -/
theorem nextTable_or_parentFlags (e flags : UInt64) :
    nextTable (e ||| parentFlags flags) = nextTable e := by
  have hmask : (e ||| parentFlags flags) &&& paddrMask = e &&& paddrMask := by
    apply eq_of_bit
    intro i _
    rw [bit_and, bit_and, bit_or, bit_parentFlags, bit_paddrMask]
    cases bit e i <;> cases bit flags i <;> grind
  rw [nextTable, nextTable, bit_or, bit_or, bit_parentFlags, bit_parentFlags, hmask]
  simp

theorem bit_tableEntry (f flags : UInt64) (i : ℕ) :
    bit (tableEntry f flags) i =
      (bit f i || decide (0 = i) || decide (1 = i) || bit (parentFlags flags) i) := by
  rw [tableEntry, bit_or, bit_or, bit_or, bit_pagePresent, bit_pageRw]

theorem bit_zero_tableEntry (f flags : UInt64) : bit (tableEntry f flags) 0 = true := by
  rw [bit_tableEntry]
  simp

section tableEntry

variable {f : UInt64} (hf : f.toNat % 4096 = 0) (flags : UInt64)
include hf

theorem bit_large_tableEntry : bit (tableEntry f flags) 7 = false := by
  rw [bit_tableEntry, bit_parentFlags, bit_of_aligned (k := 12) hf (by omega)]
  simp

theorem bit_user_tableEntry : bit (tableEntry f flags) 2 = bit flags 2 := by
  rw [bit_tableEntry, bit_parentFlags, bit_of_aligned (k := 12) hf (by omega)]
  simp

theorem tableEntry_and_paddrMask (hlow : f.toNat < 2 ^ 32) :
    tableEntry f flags &&& paddrMask = f := by
  apply eq_of_bit
  intro i _
  rw [bit_and, bit_tableEntry, bit_parentFlags, bit_paddrMask]
  by_cases hi : 12 ≤ i
  · by_cases hi' : i < 52
    · grind
    · rw [bit_of_lt (k := 32) hlow (by omega)]
      grind
  · rw [bit_of_aligned (k := 12) hf (by omega)]
    grind

theorem nextTable_tableEntry (hlow : f.toNat < 2 ^ 32) :
    nextTable (tableEntry f flags) = some f := by
  rw [nextTable, bit_zero_tableEntry, bit_large_tableEntry hf, tableEntry_and_paddrMask hf flags hlow]
  rfl

end tableEntry

/-! ## The allocator -/

theorem freeLow_of_freeFrame {s : Pfa} {p : UInt64} (h : FreeFrame s p) (hp : p.toNat < 2 ^ 32) :
    FreeLow s p := by
  rcases h with h | h
  · exact h
  · have := h.2.1
    omega

/-- `pfa_alloc_low` returning 0 changes nothing. -/
theorem pfaAllocLow_of_zero {s : Pfa} (hs : WellFormed s) (h : (pfaAllocLow s).1 = 0) :
    (pfaAllocLow s).2 = s := by
  rcases pfaAllocLow_cases s with ⟨i, hi, hclear, -, heq⟩ | ⟨-, heq⟩
  · rw [heq] at h
    exact absurd h (freeLow_managed hs (freeLow_ofIndex hs hi hclear)).ne_zero
  · rw [heq]

/-- A successful `pfa_alloc_low` lowers the count by one, and it fails at zero only. -/
theorem pfaAllocLow_count {s : Pfa} (hs : WellFormed s) :
    ((pfaAllocLow s).1 ≠ 0 ∧
      (pfaAllocLow s).2.lowFreeCount.toNat + 1 = s.lowFreeCount.toNat) ∨
    ((pfaAllocLow s).1 = 0 ∧ s.lowFreeCount.toNat = 0) := by
  rcases pfaAllocLow_cases s with ⟨i, hi, hclear, -, heq⟩ | ⟨hnone, heq⟩
  · have hpos : 0 < s.lowFreeCount.toNat := by
      rw [hs.low_count]
      exact Finset.card_pos.mpr ⟨i, ByteBits.mem_clearBits.mpr ⟨hi, hclear⟩⟩
    have hdec := toNat_count_dec (c := s.lowFreeCount) rfl hpos
    rw [heq]
    refine Or.inl ⟨(freeLow_managed hs (freeLow_ofIndex hs hi hclear)).ne_zero, ?_⟩
    dsimp only
    omega
  · rw [heq]
    refine Or.inr ⟨rfl, ?_⟩
    rw [hs.low_count, Finset.card_eq_zero, Finset.eq_empty_iff_forall_notMem]
    intro i hi
    obtain ⟨hlt, hclear⟩ := ByteBits.mem_clearBits.mp hi
    rw [hnone i hlt] at hclear
    cases hclear

/-! ## The tree -/

/-- The conditions under which `map_page` works: the allocator is consistent, each table is
reached by one path, and no table is free. -/
structure Vm.TreeOk (vm : Vm) : Prop where
  wf : WellFormed vm.pfa
  tree : Tree nextTable vm.entry vm.root 3
  not_free : ∀ k, vm.IsTable k → ¬ FreeFrame vm.pfa k

/-- A leaf with `PAGE_USER` has it on its whole path. -/
def Vm.UserOk (vm : Vm) : Prop :=
  ∀ w e l, w.length = 4 → find nextTable isLeaf vm.entry vm.root w = some (e, l) →
    bit e 2 = true → pathAll nextTable isLeaf vm.entry (fun e => bit e 2) vm.root w = true

/-- No entry above the last level on the walk `w` is a large page. -/
def Vm.NoLarge (vm : Vm) (w : List (Fin 512)) : Prop :=
  ∀ p j r k, w = p ++ j :: r → r ≠ [] → walk nextTable vm.entry vm.root p = some k →
    bit (vm.entry k j) 0 = true → bit (vm.entry k j) 7 = false

/-- What every part of `map_page` keeps: the tables stay where they are, new ones come from
free low frames, and memory outside the tables is not touched. -/
structure Keeps (vm vm' : Vm) : Prop where
  cr3 : vm'.cr3 = vm.cr3
  walk : ∀ p k, p.length ≤ 3 → walk nextTable vm.entry vm.root p = some k →
    walk nextTable vm'.entry vm'.root p = some k
  noLarge : ∀ w, w.length = 4 → vm.NoLarge w → vm'.NoLarge w
  table : ∀ k, vm'.IsTable k → vm.IsTable k ∨ FreeLow vm.pfa k
  free : ∀ q, FreeFrame vm'.pfa q → FreeFrame vm.pfa q
  mem : ∀ x, (∀ k, vm'.IsTable k → ¬ InFrame k x) → vm'.mem x = vm.mem x

/-- Before the leaf write, moreover, every walk finds what it found and present entries keep
`PAGE_USER`. -/
structure Extends (vm vm' : Vm) : Prop extends Keeps vm vm' where
  find : ∀ w, w.length = 4 →
    find nextTable isLeaf vm'.entry vm'.root w = find nextTable isLeaf vm.entry vm.root w
  user : ∀ k j, vm.IsTable k → bit (vm.entry k j) 0 = true → bit (vm.entry k j) 2 = true →
    bit (vm'.entry k j) 0 = true ∧ bit (vm'.entry k j) 2 = true
  userOk : vm.UserOk → vm'.UserOk

theorem Vm.root_aligned (vm : Vm) : vm.root.toNat % 4096 = 0 := toNat_and_paddrMask_mod vm.cr3

theorem walk_aligned {vm : Vm} {p : List (Fin 512)} {k c : UInt64} (hk : k.toNat % 4096 = 0)
    (h : Radix.walk nextTable vm.entry k p = some c) : c.toNat % 4096 = 0 := by
  induction p generalizing k with
  | nil =>
    rw [← Option.some.inj h]
    exact hk
  | cons i p ih =>
    obtain ⟨d, hd, hc⟩ := Option.bind_eq_some_iff.mp h
    exact ih (nextTable_aligned hd) hc

theorem Vm.IsTable.aligned {vm : Vm} {k : UInt64} (h : vm.IsTable k) : k.toNat % 4096 = 0 := by
  obtain ⟨p, -, hp⟩ := h
  exact walk_aligned vm.root_aligned hp

theorem Vm.isTable_of_walk {vm : Vm} {p : List (Fin 512)} {k : UInt64} (hlen : p.length ≤ 3)
    (h : Radix.walk nextTable vm.entry vm.root p = some k) : vm.IsTable k := ⟨p, hlen, h⟩

theorem Vm.root_isTable (vm : Vm) : vm.IsTable vm.root := ⟨[], by simp, rfl⟩

theorem Keeps.root {vm vm' : Vm} (h : Keeps vm vm') : vm'.root = vm.root := by
  rw [Vm.root, Vm.root, h.cr3]

theorem Keeps.isTable {vm vm' : Vm} (h : Keeps vm vm') {k : UInt64} (hk : vm.IsTable k) :
    vm'.IsTable k := by
  obtain ⟨p, hlen, hp⟩ := hk
  exact ⟨p, hlen, h.walk p k hlen hp⟩

theorem Keeps.refl (vm : Vm) : Keeps vm vm where
  cr3 := rfl
  walk _ _ _ h := h
  noLarge _ _ h := h
  table _ h := Or.inl h
  free _ h := h
  mem _ _ := rfl

theorem Keeps.trans {vm vm' vm'' : Vm} (h : Keeps vm vm') (h' : Keeps vm' vm'') :
    Keeps vm vm'' where
  cr3 := h'.cr3.trans h.cr3
  walk p k hlen hp := h'.walk p k hlen (h.walk p k hlen hp)
  noLarge w hw hno := h'.noLarge w hw (h.noLarge w hw hno)
  table k hk := by
    rcases h'.table k hk with hk' | hfree
    · exact h.table k hk'
    · exact Or.inr (freeLow_of_freeFrame (h.free k (Or.inl hfree)) hfree.2.1)
  free q hq := h.free q (h'.free q hq)
  mem x hx := by
    rw [h'.mem x hx, h.mem x fun k hk => hx k (h'.isTable hk)]

theorem Extends.refl (vm : Vm) : Extends vm vm :=
  { Keeps.refl vm with
    find := fun _ _ => rfl
    user := fun _ _ _ h h' => ⟨h, h'⟩
    userOk := id }

theorem Extends.trans {vm vm' vm'' : Vm} (h : Extends vm vm') (h' : Extends vm' vm'') :
    Extends vm vm'' :=
  { h.toKeeps.trans h'.toKeeps with
    find := fun w hw => (h'.find w hw).trans (h.find w hw)
    user := by
      intro k j hk hbit huser
      obtain ⟨hbit', huser'⟩ := h.user k j hk hbit huser
      exact h'.user k j (h.isTable hk) hbit' huser'
    userOk := fun huser => h'.userOk (h.userOk huser) }

/-- Walks that cannot meet a large page still cannot if no entry becomes one. -/
theorem noLarge_of_entries {vm vm' : Vm} (htree : Tree nextTable vm'.entry vm'.root 3)
    (hwalk : ∀ p k, p.length ≤ 3 → Radix.walk nextTable vm.entry vm.root p = some k →
      Radix.walk nextTable vm'.entry vm'.root p = some k)
    (hlarge : ∀ p k j, p.length ≤ 2 → Radix.walk nextTable vm'.entry vm'.root p = some k →
      bit (vm'.entry k j) 0 = true → bit (vm'.entry k j) 7 = true →
        vm.IsTable k ∧ bit (vm.entry k j) 0 = true ∧ bit (vm.entry k j) 7 = true)
    {w : List (Fin 512)} (hw : w.length = 4) (hno : vm.NoLarge w) : vm'.NoLarge w := by
  intro p j r k hpw hr hp hbit
  have hlen : p.length ≤ 2 := by
    have := List.length_pos_iff.mpr hr
    rw [hpw, List.length_append, List.length_cons] at hw
    omega
  by_contra hyes
  obtain ⟨⟨q, hq, hqk⟩, hbit', hyes'⟩ := hlarge p k j hlen hp hbit (Bool.not_eq_false _ ▸ hyes)
  have hpq : p = q := htree p q k (by omega) hq hp (hwalk q k hq hqk)
  rw [← hpq] at hqk
  rw [hno p j r k hpw hr hqk hbit'] at hyes'
  cases hyes'

/-! ## One level -/

theorem descend_cases (vm : Vm) (flags k : UInt64) (i : Fin 512) :
    (bit (vm.entry k i) 0 = true ∧
      descend vm flags k i = (some ((vm.entry k i ||| parentFlags flags) &&& paddrMask),
        vm.setEntry k i (vm.entry k i ||| parentFlags flags))) ∨
    (bit (vm.entry k i) 0 = false ∧ (pfaAllocLow vm.pfa).1 = 0 ∧
      descend vm flags k i = (none, { vm with pfa := (pfaAllocLow vm.pfa).2 })) ∨
    (bit (vm.entry k i) 0 = false ∧ (pfaAllocLow vm.pfa).1 ≠ 0 ∧
      descend vm flags k i =
        (some (tableEntry (pfaAllocLow vm.pfa).1 flags &&& paddrMask),
          (vm.clearFrame (pfaAllocLow vm.pfa).1 (pfaAllocLow vm.pfa).2).setEntry k i
            (tableEntry (pfaAllocLow vm.pfa).1 flags))) := by
  unfold descend
  dsimp only
  rw [entry_setEntry, entry_setEntry]
  by_cases hpres : vm.entry k i &&& pagePresent = 0
  · rw [if_pos hpres]
    have hbit := present_iff.mp hpres
    right
    by_cases hz : (pfaAllocLow vm.pfa).1 = 0
    · exact Or.inl ⟨hbit, hz, if_pos hz⟩
    · exact Or.inr ⟨hbit, hz, if_neg hz⟩
  · rw [if_neg hpres]
    left
    refine ⟨?_, rfl⟩
    by_contra hno
    exact hpres (present_iff.mpr (Bool.eq_false_iff.mpr hno))

section level

variable {vm : Vm}

/-- A user leaf stays user on its whole path where the walk sees the same entries. -/
theorem user_of_sameTo (hok : vm.UserOk) {vm' : Vm} {w : List (Fin 512)} (hw : w.length = 4)
    (hroot : vm'.root = vm.root)
    (hsame : ∀ p j r c, w = p ++ j :: r → walk nextTable vm.entry vm.root p = some c →
      SameTo nextTable isLeaf r.length (vm.entry c j) (vm'.entry c j))
    (huser : ∀ p j r c, w = p ++ j :: r → walk nextTable vm.entry vm.root p = some c →
      bit (vm.entry c j) 2 = true → bit (vm'.entry c j) 2 = true)
    {e : UInt64} {l : ℕ} (hfind : find nextTable isLeaf vm'.entry vm'.root w = some (e, l))
    (hbit : bit e 2 = true) :
    pathAll nextTable isLeaf vm'.entry (fun e => bit e 2) vm'.root w = true := by
  rw [hroot] at hfind
  rw [hroot]
  rw [find_congr hsame] at hfind
  exact pathAll_mono hsame huser (hok w e l hw hfind hbit)

variable (hok : vm.TreeOk) {p : List (Fin 512)} {k : UInt64}
  (hp : Radix.walk nextTable vm.entry vm.root p = some k)
include hok hp

/-- Adding flags to a present entry. -/
theorem orEntry_spec (hlen : p.length < 3) {i : Fin 512} (flags : UInt64)
    (hlarge : bit (vm.entry k i) 7 = false) :
    (vm.setEntry k i (vm.entry k i ||| parentFlags flags)).TreeOk ∧
      Extends vm (vm.setEntry k i (vm.entry k i ||| parentFlags flags)) ∧
      ∀ q, q.length ≤ 3 →
        walk nextTable (vm.setEntry k i (vm.entry k i ||| parentFlags flags)).entry vm.root q =
          walk nextTable vm.entry vm.root q := by
  have hk := walk_aligned vm.root_aligned hp
  -- the changed entry points to the same table, every other entry is the same
  have hentry (c : UInt64) (j : Fin 512) (hc : c.toNat % 4096 = 0) :
      (c = k ∧ j = i ∧ (vm.setEntry k i (vm.entry k i ||| parentFlags flags)).entry c j =
        vm.entry c j ||| parentFlags flags) ∨
      (vm.setEntry k i (vm.entry k i ||| parentFlags flags)).entry c j = vm.entry c j := by
    by_cases heq : c = k ∧ j = i
    · left
      obtain ⟨rfl, rfl⟩ := heq
      exact ⟨rfl, rfl, entry_setEntry ..⟩
    · right
      apply entry_setEntry_of_ne vm hk hc
      tauto
  generalize hvm' : vm.setEntry k i (vm.entry k i ||| parentFlags flags) = vm' at hentry ⊢
  have hroot : vm'.root = vm.root := by rw [← hvm', Vm.setEntry, Vm.root, Vm.root]
  have hpfa : vm'.pfa = vm.pfa := by rw [← hvm', Vm.setEntry]
  have hnext (c : UInt64) (j : Fin 512) (hc : vm.IsTable c) :
      nextTable (vm'.entry c j) = nextTable (vm.entry c j) := by
    rcases hentry c j hc.aligned with ⟨-, -, h⟩ | h
    · rw [h, nextTable_or_parentFlags]
    · rw [h]
  have hmono (c : UInt64) (j : Fin 512) (hc : c.toNat % 4096 = 0) (n : ℕ)
      (hbit : bit (vm.entry c j) n = true) : bit (vm'.entry c j) n = true := by
    rcases hentry c j hc with ⟨-, -, h⟩ | h
    · rw [h, bit_or, hbit, Bool.true_or]
    · rw [h, hbit]
  have hsame (w : List (Fin 512)) (hw : w.length = 4) (q : List (Fin 512)) (j : Fin 512)
      (r : List (Fin 512)) (c : UInt64) (hqw : w = q ++ j :: r)
      (hc : walk nextTable vm.entry vm.root q = some c) :
      SameTo nextTable isLeaf r.length (vm.entry c j) (vm'.entry c j) := by
    have hwlen := hw
    rw [hqw, List.length_append, List.length_cons] at hwlen
    rcases hentry c j (walk_aligned vm.root_aligned hc) with ⟨rfl, rfl, h⟩ | h
    · -- the entry lies above the last level and is no leaf
      have hqp := hok.tree q p _ (by omega) hlen.le hc hp
      have hr : r.length ≠ 0 := by
        rw [hqp] at hwlen
        omega
      have hlarge' : bit (vm'.entry c j) 7 = false := by
        rw [h, bit_or, hlarge, bit_parentFlags]
        simp
      have hno := isLeaf_of_not_large hr hlarge
      refine ⟨(isLeaf_of_not_large hr hlarge').trans hno.symm, ?_, ?_⟩
      · intro hyes
        rw [hno] at hyes
        cases hyes
      · intro _
        rw [h, nextTable_or_parentFlags]
    · rw [h]
      exact sameTo_refl _ _
  obtain ⟨htree, hwalk⟩ := hok.tree.congr hnext
  have htable (c : UInt64) : vm'.IsTable c ↔ vm.IsTable c := by
    unfold Vm.IsTable
    rw [hroot]
    exact isTable_congr fun q hq => hwalk q (hq.trans (by norm_num))
  have hwalk' (q : List (Fin 512)) (c : UInt64) (hq : q.length ≤ 3)
      (hc : walk nextTable vm.entry vm.root q = some c) :
      walk nextTable vm'.entry vm'.root q = some c := by
    rw [hroot, hwalk q (by omega), hc]
  refine ⟨⟨hpfa ▸ hok.wf, hroot ▸ htree, ?_⟩, ⟨⟨?_, hwalk', ?_, ?_, ?_, ?_⟩, ?_, ?_, ?_⟩,
    fun q hq => hwalk q (hq.trans (by norm_num))⟩
  · intro c hc
    rw [hpfa]
    exact hok.not_free c ((htable c).mp hc)
  · rw [← hvm', Vm.setEntry]
  · intro w hw hno
    refine noLarge_of_entries (hroot ▸ htree) hwalk' ?_ hw hno
    intro q c j hq hc hbit hlarge'
    have hc' := (htable c).mp (Vm.isTable_of_walk (by omega) hc)
    refine ⟨hc', ?_⟩
    rcases hentry c j hc'.aligned with ⟨-, -, h⟩ | h
    · rw [h, bit_or, bit_parentFlags] at hbit hlarge'
      exact ⟨by simpa using hbit, by simpa using hlarge'⟩
    · rw [← h]
      exact ⟨hbit, hlarge'⟩
  · intro c hc
    exact Or.inl ((htable c).mp hc)
  · intro q hq
    rwa [hpfa] at hq
  · intro x hx
    rw [← hvm']
    apply setEntry_mem_of_not_inFrame vm hk
    exact hx k ((htable k).mpr (Vm.isTable_of_walk hlen.le hp))
  · intro w hw
    rw [hroot]
    exact find_congr (hsame w hw)
  · intro c j hc hbit huser
    exact ⟨hmono c j hc.aligned 0 hbit, hmono c j hc.aligned 2 huser⟩
  · intro hu w e l hw hfind hbit
    refine user_of_sameTo hu hw hroot (hsame w hw) ?_ hfind hbit
    intro q j r c _ hc
    exact hmono c j (walk_aligned vm.root_aligned hc) 2

/-- Hanging a cleared frame into an entry that is not present. -/
theorem newEntry_spec (hlen : p.length < 3) {i : Fin 512} (flags : UInt64)
    (hnot : bit (vm.entry k i) 0 = false) (hz : (pfaAllocLow vm.pfa).1 ≠ 0) {vm' : Vm}
    (hvm' : (vm.clearFrame (pfaAllocLow vm.pfa).1 (pfaAllocLow vm.pfa).2).setEntry k i
      (tableEntry (pfaAllocLow vm.pfa).1 flags) = vm') :
    vm'.TreeOk ∧ Extends vm vm' ∧
      walk nextTable vm'.entry vm'.root (p ++ [i]) = some (pfaAllocLow vm.pfa).1 ∧
      ∀ q, q.length ≤ 3 → q ≠ p ++ [i] →
        walk nextTable vm'.entry vm.root q = walk nextTable vm.entry vm.root q := by
  have hk := walk_aligned vm.root_aligned hp
  obtain ⟨hfree, -⟩ := (pfaAllocLow_lowest hok.wf).2 hz
  have hwf := pfaAllocLow_wellFormed hok.wf
  have hfreeFrame := freeFrame_pfaAllocLow hok.wf
  generalize (pfaAllocLow vm.pfa).1 = f at hz hfree hvm' hfreeFrame ⊢
  generalize (pfaAllocLow vm.pfa).2 = pfa at hvm' hwf hfreeFrame ⊢
  have hf := hfree.1
  have hnotTable : ¬ vm.IsTable f := fun h => hok.not_free f h (Or.inl hfree)
  have hkTable := Vm.isTable_of_walk hlen.le hp
  have hkf : k ≠ f := by
    rintro rfl
    exact hnotTable hkTable
  have hroot : vm'.root = vm.root := by
    rw [← hvm', Vm.setEntry, Vm.clearFrame, Vm.root, Vm.root]
  have hpfa : vm'.pfa = pfa := by rw [← hvm', Vm.setEntry, Vm.clearFrame]
  have hnew : vm'.entry k i = tableEntry f flags := by rw [← hvm', entry_setEntry]
  have hentry (c : UInt64) (j : Fin 512) (hc : vm.IsTable c) (hne : c ≠ k ∨ j ≠ i) :
      vm'.entry c j = vm.entry c j := by
    have hcf : c ≠ f := by
      rintro rfl
      exact hnotTable hc
    rw [← hvm', entry_setEntry_of_ne _ hk hc.aligned _ hne,
      entry_clearFrame_of_ne vm hf hc.aligned hcf]
  have hempty (j : Fin 512) : vm'.entry f j = 0 := by
    rw [← hvm', entry_setEntry_of_ne _ hk hf _ (Or.inl hkf.symm), entry_clearFrame_self vm hf]
  have hgrows : Grows nextTable vm.entry vm'.entry vm.root 3 p k i f := by
    refine ⟨hp, hlen, nextTable_of_not_present hnot, ?_, fun j => ?_, hentry⟩
    · rw [hnew, nextTable_tableEntry hf flags hfree.2.1]
    · rw [hempty, nextTable_zero]
  have hnoLeaf (l : ℕ) : isLeaf l (vm.entry k i) = false := isLeaf_of_not_present hnot
  have hnoLeaf' (l : ℕ) (j : Fin 512) : isLeaf l (vm'.entry f j) = false := by
    rw [hempty]
    exact isLeaf_of_not_present (by rfl)
  have htable (c : UInt64) : vm'.IsTable c ↔ vm.IsTable c ∨ c = f := by
    unfold Vm.IsTable
    rw [hroot]
    exact hgrows.isTable_iff hok.tree
  have hfreeSub (q : UInt64) (hq : FreeFrame vm'.pfa q) : FreeFrame vm.pfa q ∧ q ≠ f := by
    rw [hpfa] at hq
    exact (hfreeFrame q).mp hq
  have htree : Tree nextTable vm'.entry vm.root 3 := hgrows.tree hok.tree hnotTable
  have hwalk (q : List (Fin 512)) (c : UInt64) (hq : q.length ≤ 3)
      (hc : walk nextTable vm.entry vm.root q = some c) :
      walk nextTable vm'.entry vm.root q = some c := hgrows.walk_old hok.tree hq hc
  have hother (q : List (Fin 512)) (hq : q.length ≤ 3) (hne : q ≠ p ++ [i]) :
      walk nextTable vm'.entry vm.root q = walk nextTable vm.entry vm.root q := by
    rcases hgrows.walk_cases hok.tree (hq.trans (by norm_num)) with ⟨heq, -⟩ | ⟨-, h⟩
    · exact absurd heq hne
    · exact h
  refine ⟨⟨hpfa ▸ hwf, hroot ▸ htree, ?_⟩, ⟨⟨?_, ?_, ?_, ?_, ?_, ?_⟩, ?_, ?_, ?_⟩,
    hroot ▸ hgrows.walk_new hok.tree, hother⟩
  · intro c hc hcfree
    obtain ⟨hcfree', hcf⟩ := hfreeSub c hcfree
    rcases (htable c).mp hc with hc | rfl
    · exact hok.not_free c hc hcfree'
    · exact hcf rfl
  · rw [← hvm', Vm.setEntry, Vm.clearFrame]
  · intro q c hq hc
    rw [hroot, hwalk q c hq hc]
  · intro w hw hno
    refine noLarge_of_entries (hroot ▸ htree) (hroot ▸ hwalk) ?_ hw hno
    intro q c j hq hc hbit hlarge
    by_cases hne : c ≠ k ∨ j ≠ i
    · rcases (htable c).mp (Vm.isTable_of_walk (by omega) hc) with hc | rfl
      · rw [hentry c j hc hne] at hbit hlarge
        exact ⟨hc, hbit, hlarge⟩
      · rw [hempty] at hbit
        cases hbit
    · push Not at hne
      rw [hne.1, hne.2, hnew, bit_large_tableEntry hf] at hlarge
      cases hlarge
  · intro c hc
    rcases (htable c).mp hc with hc | rfl
    · exact Or.inl hc
    · exact Or.inr hfree
  · intro q hq
    exact (hfreeSub q hq).1
  · intro x hx
    have hxk := hx k ((htable k).mpr (Or.inl hkTable))
    have hxf := hx f ((htable f).mpr (Or.inr rfl))
    rw [← hvm', setEntry_mem_of_not_inFrame _ hk _ _ hxk, Vm.clearFrame_mem,
      Memory.memset_of_not_inRange _ _ hxf]
  · intro w hw
    rw [hroot, hgrows.find_eq hok.tree nextTable_of_isLeaf hnoLeaf hnoLeaf' hw]
  · intro c j hc hbit huser
    have hne : c ≠ k ∨ j ≠ i := by
      by_contra heq
      push Not at heq
      rw [heq.1, heq.2, hnot] at hbit
      cases hbit
    rw [hentry c j hc hne]
    exact ⟨hbit, huser⟩
  · intro hu w e l hw hfind' hbit
    -- a walk that finds a leaf does not go through the new table
    have hw' : ∀ r, w ≠ p ++ i :: r := by
      rintro r rfl
      have hr : r ≠ [] := by
        rintro rfl
        rw [List.length_append, List.length_singleton] at hw
        omega
      rw [hroot, (hgrows.find_through hok.tree nextTable_of_isLeaf hnoLeaf hnoLeaf' hr).2]
        at hfind'
      cases hfind'
    have hsame := hok.tree.on_path hp hlen.le hentry hw.le hw'
    refine user_of_sameTo hu hw hroot ?_ ?_ hfind' hbit
    · intro q j r c hqw hc
      rw [hsame q j r c hqw hc]
      exact sameTo_refl _ _
    · intro q j r c hqw hc huser
      rw [hsame q j r c hqw hc, huser]

end level

end Rhoudveine.Mm
