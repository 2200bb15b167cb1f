import Rhoudveine.Mm.MapPage

/-!
# The page tables and the allocator

`mm_init` frees the bootloader's reclaimable memory, where the page tables in use lie.  The
allocator's callers and `map_page` form one transition system; it never hands out a live page
table exactly when none of the tables found at entry is free after `mm_init`.
-/

namespace Rhoudveine.Mm
open Words Radix

/-- The memory manager with the frames its callers hold. -/
structure Kernel where
  vm : Vm
  held : List UInt64

inductive KernelCall
  | alloc
  | allocLow
  | free (p : UInt64)
  | map (c : MapCall)

inductive Kernel.Step : Kernel → KernelCall → Kernel → Prop
  | alloc (s : Kernel) : Step s .alloc
      ⟨{ s.vm with pfa := (pfaAlloc s.vm.pfa).2 }, take s.held (pfaAlloc s.vm.pfa).1⟩
  | allocLow (s : Kernel) : Step s .allocLow
      ⟨{ s.vm with pfa := (pfaAllocLow s.vm.pfa).2 }, take s.held (pfaAllocLow s.vm.pfa).1⟩
  | free (s : Kernel) (p : UInt64) : p ∈ s.held →
      Step s (.free p) ⟨{ s.vm with pfa := pfaFree s.vm.pfa p }, s.held.erase p⟩
  | map (s : Kernel) (c : MapCall) :
      Step s (.map c) ⟨(mapPage s.vm c.phys c.virt c.flags).2, s.held⟩

/-- Neither allocator is about to return a page table. -/
def Vm.AllocSafe (vm : Vm) : Prop :=
  ((pfaAllocLow vm.pfa).1 ≠ 0 → ¬ vm.IsTable (pfaAllocLow vm.pfa).1) ∧
    ((pfaAlloc vm.pfa).1 ≠ 0 → ¬ vm.IsTable (pfaAlloc vm.pfa).1)

/-- The states in which a call of `map_page` starts on a level. -/
def levelStates (vm : Vm) (c : MapCall) : List Vm :=
  vm :: match descend vm c.flags vm.root (tableIndex c.virt 39) with
    | (none, _) => []
    | (some pdpt, vm) =>
      vm :: match descend vm c.flags pdpt (tableIndex c.virt 30) with
        | (none, _) => []
        | (some _, vm) => [vm]

/-- A call of `map_page` with a page-aligned frame and `PAGE_PRESENT` that meets no large
page; the other calls are free. -/
def KernelCall.Good (s : Kernel) : KernelCall → Prop
  | .map c => c.Valid ∧ s.vm.NoLarge (indices c.virt)
  | _ => True

def Kernel.GoodStep (s : Kernel) (c : KernelCall) (t : Kernel) : Prop := s.Step c t ∧ c.Good s

/-- No allocation in the state, whether a caller's or one made by `map_page`, returns a page
table. -/
def Kernel.Safe (s : Kernel) : Prop :=
  ∀ c, s.vm.AllocSafe ∧ (KernelCall.Good s (.map c) → ∀ vm ∈ levelStates s.vm c, vm.AllocSafe)

/-! ## Allocating -/

theorem Vm.TreeOk.allocSafe {vm : Vm} (hok : vm.TreeOk) : vm.AllocSafe := by
  constructor
  · intro hz htable
    exact hok.not_free _ htable (Or.inl ((pfaAllocLow_lowest hok.wf).2 hz).1)
  · intro hz htable
    exact hok.not_free _ htable (Or.inr ((pfaAlloc_lowest hok.wf).2 hz).1)

theorem Vm.TreeOk.levelStates {vm : Vm} (hok : vm.TreeOk) {c : MapCall}
    (hno : vm.NoLarge (indices c.virt)) : ∀ vm' ∈ levelStates vm c, vm'.AllocSafe := by
  have hsafe : vm.AllocSafe := hok.allocSafe
  unfold Mm.levelStates
  rcases (Reached.start hok c.flags).descend (by norm_num) rfl hno with
    ⟨heq, -⟩ | ⟨k₁, vm₁, heq, h₁⟩
  · rw [heq]
    simpa using hsafe
  rw [heq]
  have hsafe₁ := h₁.ok.allocSafe
  dsimp only
  rcases h₁.descend (by norm_num) rfl hno with ⟨heq, -⟩ | ⟨k₂, vm₂, heq, h₂⟩
  · rw [heq]
    simp only [List.mem_cons, List.not_mem_nil, or_false, forall_eq_or_imp, forall_eq]
    exact ⟨hsafe, hsafe₁⟩
  rw [heq]
  have hsafe₂ := h₂.ok.allocSafe
  simp only [List.mem_cons, List.not_mem_nil, or_false, forall_eq_or_imp, forall_eq]
  exact ⟨hsafe, hsafe₁, hsafe₂⟩

/-! ## The invariant -/

/-- The tree is well kept, and a held frame is managed, not free and not a table. -/
structure Kernel.Inv (s : Kernel) : Prop where
  ok : s.vm.TreeOk
  nodup : s.held.Nodup
  managed : ∀ p ∈ s.held, Managed p
  used : ∀ p ∈ s.held, ¬ FreeFrame s.vm.pfa p
  not_table : ∀ p ∈ s.held, ¬ s.vm.IsTable p

/-- Changing the allocator alone keeps the tables. -/
theorem Vm.TreeOk.withPfa {vm : Vm} (hok : vm.TreeOk) {pfa : Pfa} (hwf : WellFormed pfa)
    (hfree : ∀ k, vm.IsTable k → ¬ FreeFrame pfa k) : Vm.TreeOk { vm with pfa := pfa } :=
  ⟨hwf, hok.tree, hfree⟩

/-- The held frames after an allocation are the old ones and, unless it is 0, the new one. -/
theorem mem_take {held : List UInt64} {p r : UInt64} (hp : p ∈ take held r) :
    p ∈ held ∨ (p = r ∧ r ≠ 0) := by
  unfold take at hp
  by_cases hz : r = 0
  · rw [if_pos hz] at hp
    exact Or.inl hp
  · rw [if_neg hz] at hp
    exact (List.mem_cons.mp hp).symm.imp_right fun h => ⟨h, hz⟩

/-- A call that takes the free frame `r` out of the bitmaps, or returns 0. -/
theorem Kernel.Inv.taken {s : Kernel} (hs : s.Inv) {pfa : Pfa} {r : UInt64} (hwf : WellFormed pfa)
    (hr : r ≠ 0 → FreeFrame s.vm.pfa r)
    (hfree : ∀ q, FreeFrame pfa q ↔ FreeFrame s.vm.pfa q ∧ q ≠ r) :
    Kernel.Inv ⟨{ s.vm with pfa := pfa }, take s.held r⟩ := by
  have hok : Vm.TreeOk { s.vm with pfa := pfa } := by
    apply hs.ok.withPfa hwf
    intro k hk hkfree
    exact hs.ok.not_free k hk ((hfree k).mp hkfree).1
  refine ⟨hok, ?_, ?_, ?_, ?_⟩
  · dsimp only [take]
    by_cases hz : r = 0
    · rw [if_pos hz]
      exact hs.nodup
    · rw [if_neg hz]
      exact List.nodup_cons.mpr ⟨fun h => hs.used r h (hr hz), hs.nodup⟩
  · intro p hp
    rcases mem_take hp with hp | ⟨rfl, hz⟩
    · exact hs.managed p hp
    · exact freeFrame_managed hs.ok.wf (hr hz)
  · intro p hp hpfree
    obtain ⟨hpfree, hne⟩ := (hfree p).mp hpfree
    rcases mem_take hp with hp | ⟨rfl, -⟩
    · exact hs.used p hp hpfree
    · exact hne rfl
  · intro p hp htable
    rcases mem_take hp with hp | ⟨rfl, hz⟩
    · exact hs.not_table p hp htable
    · exact hs.ok.not_free p htable (hr hz)

theorem Kernel.Inv.step {s t : Kernel} {c : KernelCall} (hs : s.Inv) (h : s.GoodStep c t) :
    t.Inv := by
  obtain ⟨hstep, hgood⟩ := h
  cases hstep with
  | alloc =>
    apply hs.taken (pfaAlloc_wellFormed hs.ok.wf) _ (freeFrame_pfaAlloc hs.ok.wf)
    exact fun hr => Or.inr ((pfaAlloc_lowest hs.ok.wf).2 hr).1
  | allocLow =>
    apply hs.taken (pfaAllocLow_wellFormed hs.ok.wf) _ (freeFrame_pfaAllocLow hs.ok.wf)
    exact fun hr => Or.inl ((pfaAllocLow_lowest hs.ok.wf).2 hr).1
  | free p hp =>
    have hm := hs.managed p hp
    have hfree := freeFrame_pfaFree hs.ok.wf hm
    have hmem (q : UInt64) : q ∈ s.held.erase p ↔ q ≠ p ∧ q ∈ s.held := hs.nodup.mem_erase_iff
    refine ⟨?_, hs.nodup.erase p, ?_, ?_, ?_⟩
    · apply hs.ok.withPfa (pfaFree_wellFormed hs.ok.wf hm)
      intro k hk hkfree
      rcases (hfree k).mp hkfree with hkfree | rfl
      · exact hs.ok.not_free k hk hkfree
      · exact hs.not_table k hp hk
    · exact fun q hq => hs.managed q ((hmem q).mp hq).2
    · intro q hq hqfree
      obtain ⟨hne, hq⟩ := (hmem q).mp hq
      exact ((hfree q).mp hqfree).elim (hs.used q hq) hne
    · exact fun q hq => hs.not_table q ((hmem q).mp hq).2
  | map c =>
    obtain ⟨hvalid, hno⟩ := hgood
    obtain ⟨hok, -, hkeeps, -⟩ := mapPage_spec hs.ok hvalid.phys_aligned hvalid.present hno rfl
    refine ⟨hok, hs.nodup, hs.managed, ?_, ?_⟩
    · exact fun p hp hfree => hs.used p hp (hkeeps.free p hfree)
    · intro p hp htable
      rcases hkeeps.table p htable with htable | hfree
      · exact hs.not_table p hp htable
      · exact hs.used p hp (Or.inl hfree)

theorem Kernel.Inv.safe {s : Kernel} (hs : s.Inv) : s.Safe :=
  fun _ => ⟨hs.ok.allocSafe, fun hgood => hs.ok.levelStates hgood.2⟩

/-! ## A free table is handed out -/

/-- The allocator's calls, made by a client, in the kernel. -/
def Call.toKernel : Call → KernelCall
  | .alloc => .alloc
  | .allocLow => .allocLow
  | .free p => .free p

theorem goodStep_of_client {vm : Vm} {c c' : Client} {call : Call} (h : Client.Step c call c') :
    Kernel.GoodStep ⟨{ vm with pfa := c.pfa }, c.held⟩ call.toKernel
      ⟨{ vm with pfa := c'.pfa }, c'.held⟩ := by
  cases h with
  | alloc => exact ⟨.alloc ⟨{ vm with pfa := c.pfa }, c.held⟩, trivial⟩
  | allocLow => exact ⟨.allocLow ⟨{ vm with pfa := c.pfa }, c.held⟩, trivial⟩
  | free p hp => exact ⟨.free ⟨{ vm with pfa := c.pfa }, c.held⟩ p hp, trivial⟩

/-- If no run reaches a state that returns a table, no client ever holds one. -/
theorem held_not_table {vm : Vm} {c c' : Client} {calls : List Call}
    (hrun : Run Client.Step c calls c')
    (hsafe : ∀ kcalls t, Run Kernel.GoodStep ⟨{ vm with pfa := c.pfa }, c.held⟩ kcalls t →
      t.vm.AllocSafe)
    (hheld : ∀ p ∈ c.held, ¬ vm.IsTable p) : ∀ p ∈ c'.held, ¬ vm.IsTable p := by
  induction hrun with
  | nil => exact hheld
  | cons hstep _ ih =>
    apply ih
    · exact fun kcalls t hrun => hsafe _ t (.cons (goodStep_of_client hstep) hrun)
    · have hnow := hsafe [] _ (.nil _)
      intro p hp
      cases hstep with
      | alloc =>
        rcases mem_take hp with hp | ⟨rfl, hz⟩
        · exact hheld p hp
        · exact hnow.2 hz
      | allocLow =>
        rcases mem_take hp with hp | ⟨rfl, hz⟩
        · exact hheld p hp
        · exact hnow.1 hz
      | free q hq => exact hheld p (List.mem_of_mem_erase hp)

/-! ## The tables found at entry -/

/-- The frame at `k` lies in a reclaimable entry of the memory map. -/
def InReclaimable (entries : List MemmapEntry) (k : UInt64) : Prop :=
  ∃ e ∈ entries, e.type = limineMemmapBootloaderReclaimable ∧ e.base.toNat ≤ k.toNat ∧
    k.toNat + 4096 ≤ e.base.toNat + e.length.toNat ∧ e.base.toNat + e.length.toNat < 2 ^ 64

/-- A frame the allocator has no bit for, or one of the 32 pages reserved for the bitmaps. -/
def OutOfReach (entries : List MemmapEntry) (k : UInt64) : Prop :=
  k = 0 ∨ managedEnd ≤ k.toNat ∨
    isReserved [(bitmapPlacementAddr entries, bitmapPlacementAddr entries + reqSize)] k = true

theorem toNat_regionStart_le {e : MemmapEntry} {k : UInt64} (hk : k.toNat % 4096 = 0)
    (hle : e.base.toNat ≤ k.toNat) : e.regionStart.toNat ≤ k.toNat := by
  have hp : pageSize.toNat = 4096 := rfl
  have h1 : (1 : UInt64).toNat = 1 := rfl
  have := k.toNat_lt
  have hsum : (e.base + pageSize - 1).toNat = e.base.toNat + 4095 := by
    rw [UInt64.toNat_sub, UInt64.toNat_add, hp, h1]
    omega
  rw [MemmapEntry.regionStart, Words.toNat_and_not_low _ _ toNat_pageMask, hsum]
  omega

theorem lt_toNat_regionEnd {e : MemmapEntry} {k : UInt64} (hk : k.toNat % 4096 = 0)
    (hle : k.toNat + 4096 ≤ e.base.toNat + e.length.toNat)
    (hlt : e.base.toNat + e.length.toNat < 2 ^ 64) : k.toNat < e.regionEnd.toNat := by
  have hsum : (e.base + e.length).toNat = e.base.toNat + e.length.toNat := by
    rw [UInt64.toNat_add, Nat.mod_eq_of_lt hlt]
  rw [MemmapEntry.regionEnd, Words.toNat_and_not_low _ _ toNat_pageMask, hsum]
  omega

/-- A frame of a reclaimable entry is free after `mm_init` unless it is out of reach. -/
theorem not_freeFrame_iff_outOfReach {hhdmOffset : UInt64} {entries : List MemmapEntry} {m : State}
    (hinit : mmInit hhdmOffset (some entries) = some m) {k : UInt64} (hk : k.toNat % 4096 = 0)
    (hrec : InReclaimable entries k) : ¬ FreeFrame m.pfa k ↔ OutOfReach entries k := by
  obtain ⟨e, he, htype, hbase, hend, hwrap⟩ := hrec
  have husable : UsablePage entries k ↔ k ≠ 0 ∧ k.toNat < managedEnd := by
    constructor
    · exact fun h => ⟨h.1.ne_zero, h.1.lt_end⟩
    · rintro ⟨hz, hlt⟩
      refine ⟨⟨hk, hz, hlt⟩, e, he, ?_, ?_, ?_⟩
      · rw [MemmapEntry.usable, htype]
        rfl
      · exact UInt64.le_iff_toNat_le.mpr (toNat_regionStart_le hk hbase)
      · exact UInt64.lt_iff_toNat_lt.mpr (lt_toNat_regionEnd hk hend hwrap)
  rw [(mmInit_spec hinit).2, husable, OutOfReach]
  cases isReserved [(bitmapPlacementAddr entries, bitmapPlacementAddr entries + reqSize)] k with
  | true => simp
  | false =>
    by_cases hz : k = 0
    · simp [hz]
    · simp [hz]

/-- If no run returns a table, no table found at entry is free after `mm_init`. -/
theorem not_free_of_safe {hhdmOffset : UInt64} {entries : List MemmapEntry} {m : State}
    (hinit : mmInit hhdmOffset (some entries) = some m) {vm : Vm} (hpfa : vm.pfa = m.pfa)
    (hsafe : ∀ calls s, Run Kernel.GoodStep ⟨vm, []⟩ calls s → s.Safe) {k : UInt64}
    (hk : vm.IsTable k) : ¬ FreeFrame m.pfa k := by
  intro hfree
  obtain ⟨calls, c, hrun, hmem⟩ := exists_run_held (mmInit_inv hinit) hfree
  have hown : ∀ kcalls t, Run Kernel.GoodStep ⟨{ vm with pfa := m.pfa }, []⟩ kcalls t →
      t.vm.AllocSafe := by
    intro kcalls t hrun'
    rw [← hpfa] at hrun'
    exact (hsafe kcalls t hrun' ⟨0, 0, 0⟩).1
  exact held_not_table hrun hown (by simp) k hmem hk

/-- Page tables that lie in reclaimable memory, each referenced once: no allocation in any
reachable state returns a live page table exactly when every table found at entry is out of
the allocator's reach. -/
theorem tables_not_allocated_iff {hhdmOffset : UInt64} {entries : List MemmapEntry} {m : State}
    (hinit : mmInit hhdmOffset (some entries) = some m) {vm : Vm} (hpfa : vm.pfa = m.pfa)
    (hrec : ∀ k, vm.IsTable k → InReclaimable entries k)
    (htree : Tree nextTable vm.entry vm.root 3) :
    (∀ calls s, Run Kernel.GoodStep ⟨vm, []⟩ calls s → s.Safe) ↔
      ∀ k, vm.IsTable k → OutOfReach entries k := by
  constructor
  · intro hsafe k hk
    apply (not_freeFrame_iff_outOfReach hinit hk.aligned (hrec k hk)).mp
    exact not_free_of_safe hinit hpfa hsafe hk
  · intro hout calls s hrun
    have hinv : Kernel.Inv ⟨vm, []⟩ := by
      refine ⟨⟨hpfa ▸ (mmInit_spec hinit).1, htree, ?_⟩, List.nodup_nil, ?_, ?_, ?_⟩
      · intro k hk
        rw [hpfa]
        exact (not_freeFrame_iff_outOfReach hinit hk.aligned (hrec k hk)).mpr (hout k hk)
      · simp
      · simp
      · simp
    exact (hrun.invariant (fun s c t hs hstep => Kernel.Inv.step hs hstep) hinv).safe

/-- Tables at 12 GiB are beyond both bitmaps' frames. -/
theorem tables_not_allocated_iff_twelve_gib :
    ∃ m, mmInit 0xFFFF800000000000
        (some [⟨0x100000, 0x100000, 0⟩, ⟨0x300000000, 0x10000, 5⟩]) = some m ∧
      ∀ calls s, Run Kernel.GoodStep ⟨bootVm 0x300000000 m.pfa, []⟩ calls s → s.Safe := by
  have hplace :
      bitmapPlacementAddr [⟨0x100000, 0x100000, 0⟩, ⟨0x300000000, 0x10000, 5⟩] ≠ 0 := by decide
  obtain ⟨m, hm⟩ := mmInit_isSome 0xFFFF800000000000 hplace
  have hzero := bootVm_entry 0x300000000 m.pfa
  have htable (k : UInt64) (hk : (bootVm 0x300000000 m.pfa).IsTable k) : k = 0x300000000 := by
    rw [isTable_of_empty hzero, bootVm_root (by decide)] at hk
    exact hk
  refine ⟨m, hm, (tables_not_allocated_iff hm rfl ?_ (tree_of_empty hzero)).mpr ?_⟩
  · intro k hk
    rw [htable k hk]
    exact ⟨⟨0x300000000, 0x10000, 5⟩, by simp, rfl, by decide, by decide, by decide⟩
  · intro k hk
    rw [htable k hk]
    exact Or.inr (Or.inl (by decide))

/-- A PML4 at 2 MiB, in reclaimable memory, is handed out as a free frame. -/
theorem table_handed_out :
    ¬ ∀ (entries : List MemmapEntry) (m : State) (vm : Vm),
      mmInit 0xFFFF800000000000 (some entries) = some m → vm.pfa = m.pfa →
        (∀ k, vm.IsTable k → InReclaimable entries k) →
          ∀ calls s, Run Kernel.Step ⟨vm, []⟩ calls s → s.Safe := by
  intro hall
  have hplace :
      bitmapPlacementAddr [⟨0x100000, 0x100000, 0⟩, ⟨0x200000, 0x10000, 5⟩] ≠ 0 := by decide
  obtain ⟨m, hm⟩ := mmInit_isSome 0xFFFF800000000000 hplace
  have hzero := bootVm_entry 0x200000 m.pfa
  have hroot : (bootVm 0x200000 m.pfa).root = 0x200000 := bootVm_root (by decide) m.pfa
  have hin : InReclaimable [⟨0x100000, 0x100000, 0⟩, ⟨0x200000, 0x10000, 5⟩] 0x200000 :=
    ⟨⟨0x200000, 0x10000, 5⟩, by simp, rfl, by decide, by decide, by decide⟩
  have hrec (k : UInt64) (hk : (bootVm 0x200000 m.pfa).IsTable k) :
      InReclaimable [⟨0x100000, 0x100000, 0⟩, ⟨0x200000, 0x10000, 5⟩] k := by
    rw [isTable_of_empty hzero, hroot] at hk
    rw [hk]
    exact hin
  have hsafe := hall _ m (bootVm 0x200000 m.pfa) hm rfl hrec
  have hused : ¬ FreeFrame m.pfa 0x200000 := by
    apply not_free_of_safe hm rfl (fun calls s hrun => hsafe calls s (hrun.mono fun _ _ _ h => h.1))
    rw [isTable_of_empty hzero, hroot]
  have hout := (not_freeFrame_iff_outOfReach hm rfl hin).mp hused
  revert hout
  unfold OutOfReach
  decide

end Rhoudveine.Mm
