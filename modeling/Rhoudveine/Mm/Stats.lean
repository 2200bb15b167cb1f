import Rhoudveine.Mm.Client

/-!
# Memory statistics

What `mm_get_total_memory` and `mm_get_free_memory` say after `mm_init`.
-/

namespace Rhoudveine.Mm
open ByteBits

def mmGetTotalMemory (s : Pfa) : UInt64 := (s.totalPagesCount + s.lowTotalCount) * pageSize

def mmGetFreeMemory (s : Pfa) : UInt64 := (s.freePagesCount + s.lowFreeCount) * pageSize

/-- The statistics in a state of which `m` is the one after `mm_init`. -/
structure Truthful (m : Pfa) (c : Client) : Prop where
  total : mmGetTotalMemory c.pfa = mmGetTotalMemory m
  free : (mmGetFreeMemory c.pfa).toNat + 4096 * c.held.length = (mmGetTotalMemory m).toNat

/-! ## After `mm_init` -/

/-- Both pairs of counters agree. -/
structure AllFree (s : Pfa) : Prop where
  high : s.totalPagesCount = s.freePagesCount
  low : s.lowTotalCount = s.lowFreeCount

variable {s : Pfa} {c c' : Client} {reserved : List (UInt64 × UInt64)}

theorem AllFree.pfaFree (h : AllFree s) (p : UInt64) : AllFree (pfaFree s p) := by
  unfold Mm.pfaFree
  dsimp only
  split
  · exact h
  · split
    · split
      · exact h
      · split
        · exact ⟨h.high, congrArg (· + 1) h.low⟩
        · exact h
    · split
      · exact h
      · split
        · exact h
        · split
          · exact ⟨congrArg (· + 1) h.high, h.low⟩
          · exact h

theorem AllFree.freePages (h : AllFree s) (firstPage : UInt64) (n : ℕ) (p : UInt64) :
    AllFree (freePages reserved firstPage n p s) := by
  induction n generalizing p s with
  | zero => exact h
  | succ n ih =>
    rw [Mm.freePages]
    dsimp only
    split
    · split
      · exact ih h _
      · split
        · exact ih h _
        · exact ih (h.pfaFree _) _
    · exact h

theorem AllFree.freeEntry (h : AllFree s) (e : MemmapEntry) : AllFree (freeEntry reserved s e) := by
  unfold Mm.freeEntry
  split
  · exact h
  · exact h.freePages _ _ _

theorem AllFree.foldl (h : AllFree s) (entries : List MemmapEntry) :
    AllFree (entries.foldl (Mm.freeEntry reserved) s) := by
  induction entries generalizing s with
  | nil => exact h
  | cons e entries ih => exact ih (h.freeEntry e)

theorem mmInit_allFree {hhdmOffset : UInt64} {entries : List MemmapEntry} {m : State}
    (h : mmInit hhdmOffset (some entries) = some m) : AllFree m.pfa := by
  obtain ⟨-, hm⟩ := Option.ite_none_left_eq_some.mp h
  obtain rfl := Option.some.inj hm
  have hcleared : AllFree clearedPfa := ⟨rfl, rfl⟩
  exact hcleared.foldl entries

/-! ## The counters as numbers -/

theorem card_clearBits_le (b : ℕ → UInt8) (n : ℕ) : (clearBits b n).card ≤ n :=
  (Finset.card_filter_le _ _).trans_eq (Finset.card_range n)

theorem toNat_mmGetFreeMemory (hs : WellFormed s) :
    (mmGetFreeMemory s).toNat = freeCount s * 4096 := by
  have hlow := card_clearBits_le s.lowBitmap maxPages
  have hhigh := card_clearBits_le s.bitmap maxPages
  have hpage : pageSize.toNat = 4096 := rfl
  rw [← hs.low_count, maxPages_eq] at hlow
  rw [← hs.high_count, maxPages_eq] at hhigh
  rw [mmGetFreeMemory, freeCount, UInt64.toNat_mul, UInt64.toNat_add, hpage]
  rw [Nat.mod_eq_of_lt (by omega : s.freePagesCount.toNat + s.lowFreeCount.toNat < 2 ^ 64),
    Nat.mod_eq_of_lt (by omega), add_comm s.freePagesCount.toNat]

theorem mmGetTotalMemory_of_allFree (h : AllFree s) : mmGetTotalMemory s = mmGetFreeMemory s := by
  rw [mmGetTotalMemory, mmGetFreeMemory, h.high, h.low]

/-! ## Calls -/

theorem mmGetTotalMemory_pfaAllocLow (s : Pfa) :
    mmGetTotalMemory (pfaAllocLow s).2 = mmGetTotalMemory s := by
  rcases pfaAllocLow_cases s with ⟨i, -, -, -, heq⟩ | ⟨-, heq⟩
  · rw [heq]
    rfl
  · rw [heq]

theorem mmGetTotalMemory_pfaAlloc (hs : WellFormed s) :
    mmGetTotalMemory (pfaAlloc s).2 = mmGetTotalMemory s := by
  rcases pfaAlloc_cases hs with ⟨i, -, -, -, heq⟩ | ⟨-, heq⟩
  · rw [heq]
    rfl
  · rw [heq]

/-- A frame that is handed out is counted as held instead of free. -/
theorem freeCount_take_low (hs : WellFormed s) (held : List UInt64) :
    freeCount (pfaAllocLow s).2 + (take held (pfaAllocLow s).1).length =
      freeCount s + held.length := by
  rcases pfaAllocLow_cases s with ⟨i, hi, hclear, -, heq⟩ | ⟨-, heq⟩
  · obtain ⟨hpos, -⟩ := hs.low_clear i hi hclear
    have hne : UInt64.ofNat i * pageSize ≠ 0 := by
      intro hzero
      have hnat := toNat_mul_pageSize hi
      rw [hzero, UInt64.toNat_zero] at hnat
      omega
    have hcount : 0 < s.lowFreeCount.toNat := by
      rw [hs.low_count]
      exact Finset.card_pos.mpr ⟨i, mem_clearBits.mpr ⟨hi, hclear⟩⟩
    have hdec := toNat_count_dec (c := s.lowFreeCount) rfl hcount
    rw [heq, take, if_neg hne, freeCount, freeCount, List.length_cons]
    dsimp only
    omega
  · rw [heq, take, if_pos rfl]

theorem freeCount_take_high (hs : WellFormed s) (held : List UInt64) :
    freeCount (pfaAlloc s).2 + (take held (pfaAlloc s).1).length = freeCount s + held.length := by
  rcases pfaAlloc_cases hs with ⟨i, hi, hclear, -, heq⟩ | ⟨-, heq⟩
  · have hne : (0x100000000 : UInt64) + UInt64.ofNat i * pageSize ≠ 0 := by
      intro hzero
      have hnat := toNat_high_frame hi
      rw [hzero, UInt64.toNat_zero] at hnat
      omega
    have hcount : 0 < s.freePagesCount.toNat := by
      rw [hs.high_count]
      exact Finset.card_pos.mpr ⟨i, mem_clearBits.mpr ⟨hi, hclear⟩⟩
    have hdec := toNat_count_dec (c := s.freePagesCount) rfl hcount
    rw [heq, take, if_neg hne, freeCount, freeCount, List.length_cons]
    dsimp only
    omega
  · rw [heq, take, if_pos rfl]

/-- `pfa_free` counts a frame that comes back as if it was new. -/
theorem mmGetTotalMemory_pfaFree (hs : WellFormed s) {p : UInt64} (hp : Managed p)
    (hused : ¬ FreeFrame s p) : mmGetTotalMemory (pfaFree s p) = mmGetTotalMemory s + pageSize := by
  rcases pfaFree_cases hs hp with ⟨-, -, heq⟩ | ⟨-, -, heq⟩ | ⟨hfree, -⟩
  · rw [heq, mmGetTotalMemory, mmGetTotalMemory, ← UInt64.add_assoc, UInt64.add_mul,
      UInt64.one_mul]
  · rw [heq, mmGetTotalMemory, mmGetTotalMemory, UInt64.add_assoc, UInt64.add_comm 1,
      ← UInt64.add_assoc, UInt64.add_mul, UInt64.one_mul]
  · exact absurd hfree hused

theorem Client.Inv.free_total_ne {pool : UInt64 → Prop} (hc : c.Inv pool) {p : UInt64}
    (hp : p ∈ c.held) : mmGetTotalMemory (pfaFree c.pfa p) ≠ mmGetTotalMemory c.pfa := by
  rw [mmGetTotalMemory_pfaFree hc.wf (hc.held_managed p hp) (hc.held_used p hp)]
  intro heq
  have hpage : pageSize = 0 := add_eq_left.mp heq
  cases hpage

/-! ## Runs -/

/-- The invariant of runs without `pfa_free`. -/
structure Tracks (m : Pfa) (c : Client) : Prop where
  wf : WellFormed c.pfa
  total : mmGetTotalMemory c.pfa = mmGetTotalMemory m
  count : freeCount c.pfa + c.held.length = freeCount m

theorem Tracks.step {m : Pfa} {call : Call} (h : Tracks m c) (hstep : Client.Step c call c')
    (hcall : ∀ p, call ≠ .free p) : Tracks m c' := by
  cases hstep with
  | alloc =>
    refine ⟨pfaAlloc_wellFormed h.wf, ?_, ?_⟩
    · exact (mmGetTotalMemory_pfaAlloc h.wf).trans h.total
    · exact (freeCount_take_high h.wf c.held).trans h.count
  | allocLow =>
    refine ⟨pfaAllocLow_wellFormed h.wf, ?_, ?_⟩
    · exact (mmGetTotalMemory_pfaAllocLow c.pfa).trans h.total
    · exact (freeCount_take_low h.wf c.held).trans h.count
  | free p hp => exact absurd rfl (hcall p)

theorem Tracks.run {m : Pfa} {calls : List Call} (h : Tracks m c)
    (hrun : Run Client.Step c calls c') (hcalls : ∀ p, Call.free p ∉ calls) : Tracks m c' := by
  induction hrun with
  | nil => exact h
  | @cons c d c' call calls hstep _ ih =>
    have hd : Tracks m d := h.step hstep fun p hp => hcalls p (hp ▸ List.mem_cons_self)
    exact ih hd fun p hp => hcalls p (List.mem_cons_of_mem call hp)

theorem Tracks.truthful {m : Pfa} (h : Tracks m c) (hm : AllFree m) (hwf : WellFormed m) :
    Truthful m c := by
  have hcount := h.count
  refine ⟨h.total, ?_⟩
  rw [mmGetTotalMemory_of_allFree hm, toNat_mmGetFreeMemory h.wf, toNat_mmGetFreeMemory hwf]
  omega

/-- A run can be split at each of its calls. -/
theorem exists_split_of_free {p : UInt64} {calls : List Call} (hrun : Run Client.Step c calls c')
    (hp : Call.free p ∈ calls) :
    ∃ before after d e, calls = before ++ .free p :: after ∧ Run Client.Step c before d ∧
      Client.Step d (.free p) e := by
  induction hrun with
  | nil => cases hp
  | @cons c d c' call calls hstep _ ih =>
    rcases List.mem_cons.mp hp with rfl | hp
    · exact ⟨[], calls, c, d, rfl, .nil c, hstep⟩
    · obtain ⟨before, after, d', e, rfl, hbefore, hfree⟩ := ih hp
      exact ⟨call :: before, after, d', e, rfl, .cons hstep hbefore, hfree⟩

/-- The statistics are right in every state of a run exactly when the run gives no frame back. -/
theorem stats_truthful_iff {hhdmOffset : UInt64} {entries : List MemmapEntry} {m : State}
    (hinit : mmInit hhdmOffset (some entries) = some m) {calls : List Call}
    (hrun : Run Client.Step ⟨m.pfa, []⟩ calls c) :
    (∀ before after d, calls = before ++ after → Run Client.Step ⟨m.pfa, []⟩ before d →
      Truthful m.pfa d) ↔ ∀ p, Call.free p ∉ calls := by
  constructor
  · intro htruthful p hp
    obtain ⟨before, after, d, e, rfl, hbefore, hfree⟩ := exists_split_of_free hrun hp
    have hd := htruthful before _ d rfl hbefore
    have he := htruthful (before ++ [.free p]) after e (List.append_cons _ _ _)
      (hbefore.snoc hfree)
    have hinv := (mmInit_inv hinit).run hbefore
    cases hfree with
    | free _ hheld => exact hinv.free_total_ne hheld (he.total.trans hd.total.symm)
  · intro hcalls before after d hsplit hbefore
    have hwf := (mmInit_spec hinit).1
    have hstart : Tracks m.pfa ⟨m.pfa, []⟩ := ⟨hwf, rfl, rfl⟩
    have htracks := hstart.run hbefore fun p hp => hcalls p (hsplit ▸ List.mem_append_left _ hp)
    exact htracks.truthful (mmInit_allFree hinit) hwf

/-- One allocation from a megabyte at 1 MiB. -/
theorem stats_truthful_iff_one_mib :
    ∃ m c, mmInit 0xFFFF800000000000 (some [⟨0x100000, 0x100000, 0⟩]) = some m ∧
      Run Client.Step ⟨m.pfa, []⟩ [.allocLow] c ∧ Truthful m.pfa c := by
  obtain ⟨m, hm⟩ := mmInit_isSome 0xFFFF800000000000
    (show bitmapPlacementAddr [⟨0x100000, 0x100000, 0⟩] ≠ 0 by decide)
  have hrun := Run.cons (Client.Step.allocLow ⟨m.pfa, []⟩) (.nil _)
  have htruthful := (stats_truthful_iff hm hrun).mpr (by simp)
  exact ⟨m, _, hm, hrun, htruthful _ [] _ rfl hrun⟩

/-- A frame of that megabyte that is given back counts twice. -/
theorem free_counted_twice :
    ∃ m, mmInit 0xFFFF800000000000 (some [⟨0x100000, 0x100000, 0⟩]) = some m ∧
      ¬ ∀ calls c, Run Client.Step ⟨m.pfa, []⟩ calls c → Truthful m.pfa c := by
  obtain ⟨m, hm⟩ := mmInit_isSome 0xFFFF800000000000
    (show bitmapPlacementAddr [⟨0x100000, 0x100000, 0⟩] ≠ 0 by decide)
  have hinv := mmInit_inv hm
  have hfree : FreeFrame m.pfa 0x180000 := by
    apply ((mmInit_spec hm).2 0x180000).mpr
    refine ⟨⟨⟨by decide, by decide, by decide⟩, _, List.mem_singleton.mpr rfl, ?_⟩, ?_⟩
    · decide
    · decide
  obtain ⟨calls, d, hrun, hheld⟩ := exists_run_held hinv hfree
  refine ⟨m, hm, fun hall => ?_⟩
  have hd := hall calls d hrun
  have he := hall _ _ (hrun.snoc (.free d _ hheld))
  exact (hinv.run hrun).free_total_ne hheld (he.total.trans hd.total.symm)

end Rhoudveine.Mm
