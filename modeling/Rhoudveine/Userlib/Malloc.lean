import Rhoudveine.Lib.Run
import Rhoudveine.Lib.Words

/-!
# The heap of a program

`malloc` of `libc.h`, which hands out `_heap` from the bottom to the top.
-/

namespace Rhoudveine.Userlib

/-! ## The code -/

/-- `sizeof(_heap)`. -/
def heapSize : UInt64 := 65536

/-- `malloc` at `_heap_pos`.  A result is the offset in `_heap`, and `none` is NULL. -/
def malloc (pos size : UInt64) : Option UInt64 × UInt64 :=
  let size := (size + 7) &&& ~~~7
  if heapSize < pos + size then (none, pos) else (some pos, pos + size)

/-! ## Runs of a program -/

/-- The blocks are given by their offsets and the sizes that were asked for, latest first. -/
structure Program where
  pos : UInt64
  blocks : List (UInt64 × UInt64)

def Program.start : Program := ⟨0, []⟩

def Program.step (p : Program) (n : UInt64) : Option Program :=
  let result := malloc p.pos n
  some ⟨result.2, (result.1.map fun offset => (offset, n)).toList ++ p.blocks⟩

/-- The bytes of a block. -/
def bytes (block : UInt64 × UInt64) : Set ℕ :=
  Set.Ico block.1.toNat (block.1.toNat + block.2.toNat)

/-- What one call returns and where it leaves `_heap_pos`. -/
structure Program.Allocates (p : Program) (n : UInt64) : Prop where
  inside : ∀ offset, (malloc p.pos n).1 = some offset → offset.toNat + n.toNat ≤ 65536
  disjoint : ∀ offset, (malloc p.pos n).1 = some offset →
    ∀ b ∈ p.blocks, Disjoint (bytes (offset, n)) (bytes b)
  aligned : (malloc p.pos n).2.toNat % 8 = 0
  le : (malloc p.pos n).2.toNat ≤ 65536
  mono : p.pos ≤ (malloc p.pos n).2

/-- The size does not wrap around: neither when it is rounded up nor when `_heap_pos` is added. -/
def Program.Fits (p : Program) (n : UInt64) : Prop := p.pos.toNat + n.toNat ≤ 2 ^ 64 - 8

/-! ## One call -/

/-- All blocks are below `_heap_pos`. -/
structure Program.Inv (p : Program) : Prop where
  aligned : p.pos.toNat % 8 = 0
  le : p.pos.toNat ≤ 65536
  below : ∀ b ∈ p.blocks, b.1.toNat + b.2.toNat ≤ p.pos.toNat

variable {p q : Program} {n : UInt64}

theorem toNat_heapSize : heapSize.toNat = 65536 := rfl

theorem toNat_seven : (7 : UInt64).toNat = 2 ^ 3 - 1 := rfl

/-- `(size + 7) & ~7`. -/
theorem toNat_rounded (n : UInt64) :
    ((n + 7) &&& ~~~7).toNat = (n.toNat + 7) % 2 ^ 64 / 8 * 8 := by
  rw [Words.toNat_and_not_low _ _ toNat_seven, UInt64.toNat_add, toNat_seven]
  rfl

theorem malloc_of_fits (h : p.Fits n) (hle : p.pos.toNat ≤ 65536) (haligned : p.pos.toNat % 8 = 0) :
    (65536 < p.pos.toNat + (n.toNat + 7) / 8 * 8 ∧ malloc p.pos n = (none, p.pos)) ∨
      ∃ pos, malloc p.pos n = (some p.pos, pos) ∧ pos.toNat ≤ 65536 ∧
        pos.toNat = p.pos.toNat + (n.toNat + 7) / 8 * 8 := by
  have hfits : p.pos.toNat + n.toNat ≤ 2 ^ 64 - 8 := h
  have hrounded : ((n + 7) &&& ~~~7).toNat = (n.toNat + 7) / 8 * 8 := by
    rw [toNat_rounded, Nat.mod_eq_of_lt (by omega)]
  have hsum : (p.pos + ((n + 7) &&& ~~~7)).toNat = p.pos.toNat + (n.toNat + 7) / 8 * 8 := by
    rw [UInt64.toNat_add, hrounded, Nat.mod_eq_of_lt (by omega)]
  unfold malloc
  dsimp only
  by_cases hfull : heapSize < p.pos + ((n + 7) &&& ~~~7)
  · left
    rw [if_pos hfull]
    rw [UInt64.lt_iff_toNat_lt, toNat_heapSize, hsum] at hfull
    exact ⟨hfull, rfl⟩
  · right
    rw [if_neg hfull]
    rw [UInt64.lt_iff_toNat_lt, toNat_heapSize, hsum] at hfull
    exact ⟨_, rfl, by omega, hsum⟩

/-- A size that wraps around is taken for a small one. -/
theorem malloc_of_not_fits (h : ¬ p.Fits n) (hle : p.pos.toNat ≤ 65536)
    (haligned : p.pos.toNat % 8 = 0) : (malloc p.pos n).1 = some p.pos ∧ 65536 < n.toNat := by
  have hwraps : ¬ p.pos.toNat + n.toNat ≤ 2 ^ 64 - 8 := h
  have hlt := n.toNat_lt
  have hsmall : (p.pos + ((n + 7) &&& ~~~7)).toNat ≤ 65536 := by
    rw [UInt64.toNat_add, toNat_rounded]
    omega
  have hroom : ¬ heapSize < p.pos + ((n + 7) &&& ~~~7) := by
    rw [UInt64.lt_iff_toNat_lt, toNat_heapSize]
    omega
  unfold malloc
  dsimp only
  rw [if_neg hroom]
  exact ⟨rfl, by omega⟩

theorem Program.Inv.allocates (h : p.Inv) (hfits : p.Fits n) : p.Allocates n := by
  have hle := h.le
  have haligned := h.aligned
  rcases malloc_of_fits hfits hle haligned with ⟨-, hnone⟩ | ⟨pos, hsome, hpos, hsum⟩
  · rw [Prod.ext_iff] at hnone
    obtain ⟨hnone, hsame⟩ := hnone
    refine ⟨?_, ?_, ?_, ?_, ?_⟩
    · intro offset hoffset
      rw [hnone] at hoffset
      cases hoffset
    · intro offset hoffset
      rw [hnone] at hoffset
      cases hoffset
    · rw [hsame]
      exact haligned
    · rw [hsame]
      exact hle
    · rw [hsame]
      exact UInt64.le_refl p.pos
  · rw [Prod.ext_iff] at hsome
    obtain ⟨hsome, hnew⟩ := hsome
    refine ⟨?_, ?_, ?_, ?_, ?_⟩
    · intro offset hoffset
      obtain rfl := Option.some.inj (hsome.symm.trans hoffset)
      omega
    · intro offset hoffset b hb
      obtain rfl := Option.some.inj (hsome.symm.trans hoffset)
      have hbelow := h.below b hb
      apply Set.disjoint_left.mpr
      intro k hk hk'
      have hlow : p.pos.toNat ≤ k := hk.1
      have hhigh : k < b.1.toNat + b.2.toNat := hk'.2
      omega
    · rw [hnew]
      dsimp only
      omega
    · rw [hnew]
      exact hpos
    · rw [hnew, UInt64.le_iff_toNat_le]
      dsimp only
      omega

theorem Program.Inv.allocates_iff (h : p.Inv) : p.Allocates n ↔ p.Fits n := by
  constructor
  · intro hallocates
    by_contra hwraps
    obtain ⟨hsome, hlarge⟩ := malloc_of_not_fits hwraps h.le h.aligned
    have hinside := hallocates.inside p.pos hsome
    omega
  · exact h.allocates

theorem Program.Inv.step (h : p.Inv) (hfits : p.Fits n) (hstep : p.step n = some q) : q.Inv := by
  have hle := h.le
  have haligned := h.aligned
  unfold Program.step at hstep
  rcases malloc_of_fits hfits hle haligned with ⟨-, hnone⟩ | ⟨pos, hsome, hpos, hsum⟩
  · rw [hnone] at hstep
    obtain rfl := Option.some.inj hstep
    exact ⟨haligned, hle, h.below⟩
  · rw [hsome] at hstep
    obtain rfl := Option.some.inj hstep
    refine ⟨?_, hpos, ?_⟩
    · dsimp only
      omega
    · intro b hb
      rcases List.mem_cons.mp hb with rfl | hold
      · dsimp only
        omega
      · have hbelow := h.below b hold
        dsimp only
        omega

/-! ## Runs -/

theorem Program.Inv.start : Program.start.Inv := by
  refine ⟨rfl, Nat.zero_le _, ?_⟩
  intro b hb
  cases hb

/-- All calls of a run allocate as they should as long as no size wraps around. -/
theorem malloc_allocates_iff (sizes : List UInt64) :
    Always Program.step Program.Allocates Program.start sizes ↔
      Always Program.step Program.Fits Program.start sizes :=
  always_iff (D := fun _ _ => True) (fun _ _ h _ => h.allocates_iff)
    (fun _ _ _ h _ hfits hstep => h.step hfits hstep) Program.Inv.start
    (Always.of_forall (fun _ _ => trivial) _ _)

/-- A size of -1 is rounded up to 0. -/
theorem malloc_minus_one :
    ¬ ∀ sizes, Always Program.step Program.Allocates Program.start sizes := by
  intro hall
  have hinside := (hall [0xFFFFFFFFFFFFFFFF]).1.inside 0 (by decide)
  revert hinside
  decide

end Rhoudveine.Userlib
