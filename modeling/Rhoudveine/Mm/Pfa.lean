import Rhoudveine.Lib.Search
import Rhoudveine.Lib.ByteBits
import Rhoudveine.Lib.Words

/-!
# The physical frame allocator

`pfa_alloc`, `pfa_alloc_low` and `pfa_free` over two bitmaps: the low one for
frames below 4 GiB, the main one for the 8 GiB from `bitmap_base`.  A set bit is
a used frame.  The bitmaps are storage of their own here; where `mm_init` puts
them in memory is the subject of `Rhoudveine.Mm.Placement`.
-/

namespace Rhoudveine.Mm
open Search ByteBits

def pageSize : UInt64 := 4096

/-- `MAX_PAGES`: frames each bitmap describes. -/
def maxPages : ℕ := 1024 * 1024 * 2

/-- `BITMAP_SIZE`, in bytes. -/
def bitmapSize : ℕ := maxPages / 8

theorem maxPages_eq : maxPages = 2097152 := rfl

theorem bitmapSize_eq : bitmapSize = 262144 := rfl

/-- The allocator's static variables. -/
structure Pfa where
  bitmap : ℕ → UInt8
  bitmapBase : UInt64
  freePagesCount : UInt64
  totalPagesCount : UInt64
  lowBitmap : ℕ → UInt8
  lowFreeCount : UInt64
  lowTotalCount : UInt64

/-! ## Bitmap helper functions -/

def addrToIndex (s : Pfa) (paddr : UInt64) : ℕ := ((paddr - s.bitmapBase) / pageSize).toNat

def bitmapSetUsed (bmap : ℕ → UInt8) (index : ℕ) : ℕ → UInt8 :=
  Function.update bmap (index / 8) (bmap (index / 8) ||| mask (index % 8))

def bitmapSetFree (bmap : ℕ → UInt8) (index : ℕ) : ℕ → UInt8 :=
  Function.update bmap (index / 8) (bmap (index / 8) &&& ~~~mask (index % 8))

def bitmapIsFree (bmap : ℕ → UInt8) (index : ℕ) : Bool :=
  bmap (index / 8) &&& mask (index % 8) == 0

@[simp] theorem bit_bitmapSetUsed (b : ℕ → UInt8) (i j : ℕ) :
    bit (bitmapSetUsed b i) j = (bit b j || decide (i = j)) := bit_or_mask b i j

@[simp] theorem bit_bitmapSetFree (b : ℕ → UInt8) (i j : ℕ) :
    bit (bitmapSetFree b i) j = (bit b j && !decide (i = j)) := bit_and_not_mask b i j

@[simp] theorem bitmapIsFree_eq (b : ℕ → UInt8) (i : ℕ) : bitmapIsFree b i = !bit b i := by
  have h := and_mask_eq_zero (b (i / 8)) (Nat.mod_lt i (by norm_num : 8 > 0))
  unfold bitmapIsFree bit
  cases hb : (b (i / 8)).toNat.testBit (i % 8) <;> simp [h, hb]

/-! ## Public functions -/

def pfaFree (s : Pfa) (paddr : UInt64) : Pfa :=
  if paddr = 0 then s
  else if paddr < 0x100000000 then
    let index := (paddr / pageSize).toNat
    if index ≥ maxPages then s
    else if !bitmapIsFree s.lowBitmap index then
      { s with
        lowBitmap := bitmapSetFree s.lowBitmap index
        lowFreeCount := s.lowFreeCount + 1
        lowTotalCount := s.lowTotalCount + 1 }
    else s
  else if paddr < s.bitmapBase then s
  else
    let index := addrToIndex s paddr
    if index ≥ maxPages then s
    else if !bitmapIsFree s.bitmap index then
      { s with
        bitmap := bitmapSetFree s.bitmap index
        freePagesCount := s.freePagesCount + 1
        totalPagesCount := s.totalPagesCount + 1 }
    else s

/-- One round of the byte loop: a byte of `0xFF` is skipped, and `break` past
`MAX_PAGES` leaves no later bit of the byte to find. -/
def scanByte (bmap : ℕ → UInt8) (byte : ℕ) : Option ℕ :=
  if bmap byte = 0xFF then none
  else
    firstSome
      (fun b =>
        let index := byte * 8 + b
        if index ≥ maxPages then none
        else if bitmapIsFree bmap index then some index
        else none)
      8 0

def scanBitmap (bmap : ℕ → UInt8) : Option ℕ := firstSome (scanByte bmap) bitmapSize 0

def pfaAllocLow (s : Pfa) : UInt64 × Pfa :=
  match scanBitmap s.lowBitmap with
  | some index =>
    (UInt64.ofNat index * pageSize,
      { s with
        lowBitmap := bitmapSetUsed s.lowBitmap index
        lowFreeCount := s.lowFreeCount - 1 })
  | none => (0, s)

def pfaAlloc (s : Pfa) : UInt64 × Pfa :=
  match scanBitmap s.bitmap with
  | some index =>
    (s.bitmapBase + UInt64.ofNat index * pageSize,
      { s with
        bitmap := bitmapSetUsed s.bitmap index
        freePagesCount := s.freePagesCount - 1 })
  | none => (0, s)

/-! ## The scan finds the first clear bit -/

theorem scanByte_eq_some {b : ℕ → UInt8} {byte i : ℕ} :
    scanByte b byte = some i ↔
      i / 8 = byte ∧ i < maxPages ∧ bit b i = false ∧
        ∀ j, byte * 8 ≤ j → j < i → bit b j = true := by
  unfold scanByte
  by_cases hff : b byte = 0xFF
  · simp only [if_pos hff, reduceCtorEq, false_iff]
    rintro ⟨rfl, -, hclear, -⟩
    simp [bit_of_byte_full hff] at hclear
  · rw [if_neg hff, firstSome_eq_some]
    constructor
    · rintro ⟨k, -, hk, hhit, hmiss⟩
      dsimp only at hhit
      split_ifs at hhit with hge hfree
      obtain rfl := Option.some.inj hhit
      refine ⟨by omega, by omega, by simpa using hfree, fun j hj hj' => ?_⟩
      have hm := hmiss (j - byte * 8) (by omega) (by omega)
      rw [show byte * 8 + (j - byte * 8) = j by omega] at hm
      dsimp only at hm
      split_ifs at hm with hge' hfree'
      · omega
      · simpa using hfree'
    · rintro ⟨hbyte, hlt, hclear, hbelow⟩
      have hi : byte * 8 + (i - byte * 8) = i := by omega
      refine ⟨i - byte * 8, by omega, by omega, ?_, fun j _ hj => ?_⟩
      · dsimp only
        rw [hi, if_neg (by omega)]
        simp [hclear]
      · have hset := hbelow (byte * 8 + j) (by omega) (by omega)
        simp [hset]

theorem scanByte_eq_none {b : ℕ → UInt8} {byte : ℕ} :
    scanByte b byte = none ↔ ∀ i, i / 8 = byte → i < maxPages → bit b i = true := by
  unfold scanByte
  by_cases hff : b byte = 0xFF
  · simp only [if_pos hff, true_iff]
    rintro i rfl -
    exact bit_of_byte_full hff
  · rw [if_neg hff, firstSome_eq_none]
    constructor
    · intro h i hi hlt
      have hm := h (i - byte * 8) (by omega) (by omega)
      rw [show byte * 8 + (i - byte * 8) = i by omega] at hm
      dsimp only at hm
      rw [if_neg (by omega)] at hm
      simpa using hm
    · intro h k _ hk
      dsimp only
      split_ifs with hge hfree
      · rfl
      · have := h (byte * 8 + k) (by omega) (by omega)
        simp [this] at hfree
      · rfl

/-- The byte-skipping scan returns the first clear bit. -/
theorem scanBitmap_eq_some {b : ℕ → UInt8} {i : ℕ} :
    scanBitmap b = some i ↔ i < maxPages ∧ bit b i = false ∧ ∀ j < i, bit b j = true := by
  unfold scanBitmap
  rw [firstSome_eq_some]
  constructor
  · rintro ⟨byte, -, hbyte, hhit, hmiss⟩
    obtain ⟨hq, hlt, hclear, hbelow⟩ := scanByte_eq_some.mp hhit
    refine ⟨hlt, hclear, fun j hj => ?_⟩
    rcases Nat.lt_or_ge j (byte * 8) with h | h
    · exact scanByte_eq_none.mp (hmiss (j / 8) (by omega) (by omega)) j rfl (by omega)
    · exact hbelow j h hj
  · rintro ⟨hlt, hclear, hbelow⟩
    have hbyte : i / 8 < 0 + bitmapSize := by rw [maxPages_eq] at hlt; rw [bitmapSize_eq]; omega
    refine ⟨i / 8, by omega, hbyte,
      scanByte_eq_some.mpr ⟨rfl, hlt, hclear, fun j _ hj => hbelow j hj⟩, fun j _ hj => ?_⟩
    exact scanByte_eq_none.mpr fun k hk _ => hbelow k (by omega)

theorem scanBitmap_eq_none {b : ℕ → UInt8} :
    scanBitmap b = none ↔ ∀ i < maxPages, bit b i = true := by
  unfold scanBitmap
  rw [firstSome_eq_none]
  constructor
  · intro h i hi
    have hb : i / 8 < 0 + bitmapSize := by rw [maxPages_eq] at hi; rw [bitmapSize_eq]; omega
    exact scanByte_eq_none.mp (h (i / 8) (by omega) hb) i rfl hi
  · intro h byte _ _
    exact scanByte_eq_none.mpr fun i _ hi => h i hi

end Rhoudveine.Mm
