import Rhoudveine.Lib.Run
import Rhoudveine.Mm.Init

/-!
# Runs of the allocator

The callers of the allocator as one transition system: any order of `pfa_alloc`,
`pfa_alloc_low` and `pfa_free`, where a frame is only freed while it is held.
-/

namespace Rhoudveine.Mm
open ByteBits

/-- The allocator together with the frames its callers hold, one occurrence for
each time a frame was handed out and not given back. -/
structure Client where
  pfa : Pfa
  held : List UInt64

inductive Call
  | alloc
  | allocLow
  | free (p : UInt64)

/-- A returned 0 is no frame. -/
def take (held : List UInt64) (r : UInt64) : List UInt64 := if r = 0 then held else r :: held

inductive Client.Step : Client → Call → Client → Prop
  | alloc (c : Client) : Step c .alloc ⟨(pfaAlloc c.pfa).2, take c.held (pfaAlloc c.pfa).1⟩
  | allocLow (c : Client) :
      Step c .allocLow ⟨(pfaAllocLow c.pfa).2, take c.held (pfaAllocLow c.pfa).1⟩
  | free (c : Client) (p : UInt64) : p ∈ c.held → Step c (.free p) ⟨pfaFree c.pfa p, c.held.erase p⟩

/-- The frame a call is about: the one returned or the one given back. -/
def Client.frameOf (c : Client) : Call → UInt64
  | .alloc => (pfaAlloc c.pfa).1
  | .allocLow => (pfaAllocLow c.pfa).1
  | .free p => p

/-- The client invariant: the free and the held frames partition `pool`. -/
structure Client.Inv (pool : UInt64 → Prop) (c : Client) : Prop where
  wf : WellFormed c.pfa
  nodup : c.held.Nodup
  held_managed : ∀ p ∈ c.held, Managed p
  held_used : ∀ p ∈ c.held, ¬ FreeFrame c.pfa p
  pool_iff : ∀ p, FreeFrame c.pfa p ∨ p ∈ c.held ↔ pool p

variable {pool : UInt64 → Prop}

/-- A call that takes a free frame `r` out of the bitmaps, or returns 0, keeps the
invariant. -/
theorem Client.Inv.taken {c : Client} (hc : c.Inv pool) {s : Pfa} {r : UInt64}
    (hs : WellFormed s) (hr : r ≠ 0 → FreeFrame c.pfa r)
    (hfree : ∀ q, FreeFrame s q ↔ FreeFrame c.pfa q ∧ q ≠ r) : Client.Inv pool ⟨s, take c.held r⟩ := by
  unfold take
  by_cases hz : r = 0
  · have hsame (q : UInt64) : FreeFrame s q ↔ FreeFrame c.pfa q := by
      rw [hfree, hz]
      exact and_iff_left_of_imp fun h => (freeFrame_managed hc.wf h).ne_zero
    rw [if_pos hz]
    refine ⟨hs, hc.nodup, hc.held_managed, fun p hp h => hc.held_used p hp ((hsame p).mp h), ?_⟩
    intro p
    rw [hsame]
    exact hc.pool_iff p
  · have hfr := hr hz
    rw [if_neg hz]
    refine ⟨hs, List.nodup_cons.mpr ⟨fun h => hc.held_used r h hfr, hc.nodup⟩, ?_, ?_, ?_⟩
    · intro p hp
      rcases List.mem_cons.mp hp with rfl | hp
      · exact freeFrame_managed hc.wf hfr
      · exact hc.held_managed p hp
    · intro p hp h
      obtain ⟨h', hne⟩ := (hfree p).mp h
      rcases List.mem_cons.mp hp with rfl | hp
      · exact hne rfl
      · exact hc.held_used p hp h'
    · intro p
      rw [hfree, ← hc.pool_iff p, List.mem_cons]
      by_cases hpr : p = r
      · simp [hpr, hfr]
      · simp [hpr]

theorem Client.Inv.step {c c' : Client} {call : Call} (hc : c.Inv pool)
    (h : Client.Step c call c') : c'.Inv pool := by
  cases h with
  | alloc =>
    refine hc.taken (pfaAlloc_wellFormed hc.wf) (fun hr => ?_) (freeFrame_pfaAlloc hc.wf)
    exact Or.inr ((pfaAlloc_lowest hc.wf).2 hr).1
  | allocLow =>
    refine hc.taken (pfaAllocLow_wellFormed hc.wf) (fun hr => ?_) (freeFrame_pfaAllocLow hc.wf)
    exact Or.inl ((pfaAllocLow_lowest hc.wf).2 hr).1
  | free p hp =>
    have hm := hc.held_managed p hp
    have hfree := freeFrame_pfaFree hc.wf hm
    have hmem (q : UInt64) : q ∈ c.held.erase p ↔ q ≠ p ∧ q ∈ c.held := hc.nodup.mem_erase_iff
    refine ⟨pfaFree_wellFormed hc.wf hm, hc.nodup.erase p, ?_, ?_, ?_⟩
    · exact fun q hq => hc.held_managed q ((hmem q).mp hq).2
    · intro q hq h
      obtain ⟨hne, hq⟩ := (hmem q).mp hq
      exact ((hfree q).mp h).elim (hc.held_used q hq) hne
    · intro q
      change FreeFrame (pfaFree c.pfa p) q ∨ q ∈ c.held.erase p ↔ pool q
      rw [hfree, hmem, ← hc.pool_iff q]
      by_cases hqp : q = p
      · simp [hqp, hp]
      · simp [hqp]

theorem Client.Inv.run {c c' : Client} {calls : List Call} (hc : c.Inv pool)
    (h : Run Client.Step c calls c') : c'.Inv pool :=
  h.invariant (P := fun c => c.Inv pool) (fun _ _ _ hc hstep => hc.step hstep) hc

/-- No frame is held right after `mm_init`. -/
theorem mmInit_inv {hhdmOffset : UInt64} {entries : List MemmapEntry} {m : State}
    (h : mmInit hhdmOffset (some entries) = some m) :
    Client.Inv (FreeFrame m.pfa) ⟨m.pfa, []⟩ :=
  ⟨(mmInit_spec h).1, List.nodup_nil, by simp, by simp, by simp⟩

/-! ## Every free frame is handed out by some run -/

/-- The number of free frames, as the counters have it. -/
def freeCount (s : Pfa) : ℕ := s.lowFreeCount.toNat + s.freePagesCount.toNat

theorem freeCount_pfaAllocLow {s : Pfa} (hs : WellFormed s) (hr : (pfaAllocLow s).1 ≠ 0) :
    freeCount (pfaAllocLow s).2 < freeCount s := by
  rcases pfaAllocLow_cases s with ⟨i, hi, hclear, -, heq⟩ | ⟨-, heq⟩
  · have hpos : 0 < s.lowFreeCount.toNat := by
      rw [hs.low_count]
      exact Finset.card_pos.mpr ⟨i, mem_clearBits.mpr ⟨hi, hclear⟩⟩
    have hdec := toNat_count_dec (c := s.lowFreeCount) rfl hpos
    rw [heq]
    simp only [freeCount]
    omega
  · rw [heq] at hr
    exact absurd rfl hr

theorem freeCount_pfaAlloc {s : Pfa} (hs : WellFormed s) (hr : (pfaAlloc s).1 ≠ 0) :
    freeCount (pfaAlloc s).2 < freeCount s := by
  rcases pfaAlloc_cases hs with ⟨i, hi, hclear, -, heq⟩ | ⟨-, heq⟩
  · have hpos : 0 < s.freePagesCount.toNat := by
      rw [hs.high_count]
      exact Finset.card_pos.mpr ⟨i, mem_clearBits.mpr ⟨hi, hclear⟩⟩
    have hdec := toNat_count_dec (c := s.freePagesCount) rfl hpos
    rw [heq]
    simp only [freeCount]
    omega
  · rw [heq] at hr
    exact absurd rfl hr

theorem mem_take_of_eq (held : List UInt64) {p r : UInt64} (hr : r ≠ 0) (hpr : p = r) :
    p ∈ take held r := by
  rw [take, if_neg hr, hpr]
  exact List.mem_cons_self

/-- Some allocation either hands out the free frame `p` or leaves it free and takes
another one. -/
theorem exists_step_towards {c : Client} (hc : c.Inv pool) {p : UInt64} (hp : FreeFrame c.pfa p) :
    ∃ call c', Client.Step c call c' ∧
      (p ∈ c'.held ∨ (FreeFrame c'.pfa p ∧ freeCount c'.pfa < freeCount c.pfa)) := by
  rcases hp with hp | hp
  · have hr : (pfaAllocLow c.pfa).1 ≠ 0 := fun h => (pfaAllocLow_lowest hc.wf).1.mp h p hp
    refine ⟨_, _, .allocLow c, ?_⟩
    by_cases hpr : p = (pfaAllocLow c.pfa).1
    · exact Or.inl (mem_take_of_eq c.held hr hpr)
    · exact Or.inr ⟨(freeFrame_pfaAllocLow hc.wf p).mpr ⟨Or.inl hp, hpr⟩,
        freeCount_pfaAllocLow hc.wf hr⟩
  · have hr : (pfaAlloc c.pfa).1 ≠ 0 := fun h => (pfaAlloc_lowest hc.wf).1.mp h p hp
    refine ⟨_, _, .alloc c, ?_⟩
    by_cases hpr : p = (pfaAlloc c.pfa).1
    · exact Or.inl (mem_take_of_eq c.held hr hpr)
    · exact Or.inr ⟨(freeFrame_pfaAlloc hc.wf p).mpr ⟨Or.inr hp, hpr⟩, freeCount_pfaAlloc hc.wf hr⟩

theorem exists_run_held {c : Client} (hc : c.Inv pool) {p : UInt64} (hp : FreeFrame c.pfa p) :
    ∃ calls c', Run Client.Step c calls c' ∧ p ∈ c'.held := by
  induction hn : freeCount c.pfa using Nat.strong_induction_on generalizing c with
  | _ n ih =>
    subst hn
    obtain ⟨call, c', hstep, hheld | ⟨hfree, hlt⟩⟩ := exists_step_towards hc hp
    · exact ⟨_, c', .cons hstep (.nil _), hheld⟩
    · obtain ⟨calls, c'', hrun, hmem⟩ := ih _ hlt (hc.step hstep) hfree rfl
      exact ⟨_, c'', .cons hstep hrun, hmem⟩

/-! ## The allocator's contract -/

/-- Both allocators return the lowest free frame of their half, page aligned and
not zero, or 0 exactly when their half has no free frame. -/
structure AllocatesLowest (s : Pfa) : Prop where
  low_zero : (pfaAllocLow s).1 = 0 ↔ ∀ p, ¬ FreeLow s p
  low_lowest : (pfaAllocLow s).1 ≠ 0 →
    FreeLow s (pfaAllocLow s).1 ∧ ∀ p, FreeLow s p → (pfaAllocLow s).1 ≤ p
  high_zero : (pfaAlloc s).1 = 0 ↔ ∀ p, ¬ FreeHigh s p
  high_lowest : (pfaAlloc s).1 ≠ 0 →
    FreeHigh s (pfaAlloc s).1 ∧ ∀ p, FreeHigh s p → (pfaAlloc s).1 ≤ p

/-- The two bitmaps of `s` and `s'` agree except for the bit of frame `p`. -/
structure ChangesOnlyBitOf (p : UInt64) (s s' : Pfa) : Prop where
  low : ∀ i < maxPages, bit s'.lowBitmap i ≠ bit s.lowBitmap i → p.toNat = i * 4096
  high : ∀ i < maxPages, bit s'.bitmap i ≠ bit s.bitmap i → p.toNat = 2 ^ 32 + i * 4096

/-- The counters are the numbers of clear bits, and a counter about to be
decremented is not zero. -/
structure Counted (s : Pfa) : Prop where
  low : s.lowFreeCount.toNat = (clearBits s.lowBitmap maxPages).card
  high : s.freePagesCount.toNat = (clearBits s.bitmap maxPages).card
  low_no_underflow : (pfaAllocLow s).1 ≠ 0 → 0 < s.lowFreeCount.toNat
  high_no_underflow : (pfaAlloc s).1 ≠ 0 → 0 < s.freePagesCount.toNat

theorem WellFormed.allocatesLowest {s : Pfa} (hs : WellFormed s) : AllocatesLowest s :=
  ⟨(pfaAllocLow_lowest hs).1, (pfaAllocLow_lowest hs).2, (pfaAlloc_lowest hs).1,
    (pfaAlloc_lowest hs).2⟩

theorem WellFormed.counted {s : Pfa} (hs : WellFormed s) : Counted s := by
  refine ⟨hs.low_count, hs.high_count, fun hr => ?_, fun hr => ?_⟩
  · rw [hs.low_count]
    have hfree := ((pfaAllocLow_lowest hs).2 hr).1
    have hlt : (pfaAllocLow s).1.toNat / 4096 < maxPages := by
      have := hfree.2.1
      rw [maxPages_eq]
      omega
    exact Finset.card_pos.mpr ⟨_, mem_clearBits.mpr ⟨hlt, hfree.2.2⟩⟩
  · rw [hs.high_count]
    have hfree := ((pfaAlloc_lowest hs).2 hr).1
    have hlt : ((pfaAlloc s).1.toNat - 2 ^ 32) / 4096 < maxPages := by
      have := hfree.2.2.1
      rw [managedEnd_eq] at this
      rw [maxPages_eq]
      omega
    exact Finset.card_pos.mpr ⟨_, mem_clearBits.mpr ⟨hlt, hfree.2.2.2⟩⟩

theorem changesOnlyBitOf_refl (p : UInt64) (s : Pfa) : ChangesOnlyBitOf p s s :=
  ⟨fun _ _ h => absurd rfl h, fun _ _ h => absurd rfl h⟩

theorem pfaAllocLow_changes (s : Pfa) : ChangesOnlyBitOf (pfaAllocLow s).1 s (pfaAllocLow s).2 := by
  rcases pfaAllocLow_cases s with ⟨i, hi, -, -, heq⟩ | ⟨-, heq⟩
  · rw [heq]
    refine ⟨fun j _ h => ?_, fun _ _ h => absurd rfl h⟩
    simp only [bit_bitmapSetUsed, ne_eq] at h
    obtain rfl : i = j := by
      by_contra hij
      simp [hij] at h
    exact toNat_mul_pageSize hi
  · rw [heq]
    exact changesOnlyBitOf_refl 0 s

theorem pfaAlloc_changes {s : Pfa} (hs : WellFormed s) :
    ChangesOnlyBitOf (pfaAlloc s).1 s (pfaAlloc s).2 := by
  rcases pfaAlloc_cases hs with ⟨i, hi, -, -, heq⟩ | ⟨-, heq⟩
  · rw [heq]
    refine ⟨fun _ _ h => absurd rfl h, fun j _ h => ?_⟩
    simp only [bit_bitmapSetUsed, ne_eq] at h
    obtain rfl : i = j := by
      by_contra hij
      simp [hij] at h
    exact toNat_high_frame hi
  · rw [heq]
    exact changesOnlyBitOf_refl 0 s

theorem pfaFree_changes {s : Pfa} (hs : WellFormed s) {p : UInt64} (hp : Managed p) :
    ChangesOnlyBitOf p s (pfaFree s p) := by
  have ha := hp.aligned
  rcases pfaFree_cases hs hp with ⟨-, -, heq⟩ | ⟨hge, -, heq⟩ | ⟨-, heq⟩
  · rw [heq]
    refine ⟨fun j _ h => ?_, fun _ _ h => absurd rfl h⟩
    simp only [bit_bitmapSetFree, ne_eq] at h
    have hj : p.toNat / 4096 = j := by
      by_contra hij
      simp [hij] at h
    omega
  · rw [heq]
    refine ⟨fun _ _ h => absurd rfl h, fun j _ h => ?_⟩
    simp only [bit_bitmapSetFree, ne_eq] at h
    have hj : (p.toNat - 2 ^ 32) / 4096 = j := by
      by_contra hij
      rw [decide_eq_false hij, Bool.not_false, Bool.and_true] at h
      exact h rfl
    omega
  · rw [heq]
    exact changesOnlyBitOf_refl p s

theorem Client.Inv.changes {c c' : Client} {call : Call} (hc : c.Inv pool)
    (h : Client.Step c call c') : ChangesOnlyBitOf (c.frameOf call) c.pfa c'.pfa := by
  cases h with
  | alloc => exact pfaAlloc_changes hc.wf
  | allocLow => exact pfaAllocLow_changes c.pfa
  | free p hp => exact pfaFree_changes hc.wf (hc.held_managed p hp)

/-- After `mm_init`, in every state a run of the allocator reaches: each allocator
returns the lowest free frame of its half or 0, no frame is held twice, the next
call changes at most the bit of the frame it is about, and the counters count
the clear bits. -/
theorem pfa_run_contract {hhdmOffset : UInt64} {entries : List MemmapEntry} {m : State}
    (hinit : mmInit hhdmOffset (some entries) = some m) {calls : List Call} {c : Client}
    (hrun : Run Client.Step ⟨m.pfa, []⟩ calls c) :
    AllocatesLowest c.pfa ∧ c.held.Nodup ∧
      (∀ call c', Client.Step c call c' → ChangesOnlyBitOf (c.frameOf call) c.pfa c'.pfa) ∧
      Counted c.pfa := by
  have hc := (mmInit_inv hinit).run hrun
  exact ⟨hc.wf.allocatesLowest, hc.nodup, fun call c' h => hc.changes h, hc.wf.counted⟩

theorem mmInit_isSome (hhdmOffset : UInt64) {entries : List MemmapEntry}
    (h : bitmapPlacementAddr entries ≠ 0) : ∃ m, mmInit hhdmOffset (some entries) = some m := by
  unfold mmInit
  dsimp only
  rw [if_neg h]
  exact ⟨_, rfl⟩

/-- One megabyte at 1 MiB, and one allocation from it. -/
theorem pfa_run_contract_one_mib :
    ∃ m c, mmInit 0xFFFF800000000000 (some [⟨0x100000, 0x100000, 0⟩]) = some m ∧
      Run Client.Step ⟨m.pfa, []⟩ [.allocLow] c ∧ c.held.Nodup ∧ Counted c.pfa := by
  obtain ⟨m, hm⟩ := mmInit_isSome 0xFFFF800000000000
    (show bitmapPlacementAddr [⟨0x100000, 0x100000, 0⟩] ≠ 0 by decide)
  have hrun := Run.cons (Client.Step.allocLow ⟨m.pfa, []⟩) (.nil _)
  obtain ⟨-, hnodup, -, hcounted⟩ := pfa_run_contract hm hrun
  exact ⟨m, _, hm, hrun, hnodup, hcounted⟩

end Rhoudveine.Mm
