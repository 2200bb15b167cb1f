import Rhoudveine.Lib.Memory
import Rhoudveine.Lib.Radix
import Rhoudveine.Mm.Frames

/-!
# `map_page` and the page-table walk

Page tables are frames of 512 entries in physical memory, which the kernel reaches through
the direct map: `phys_to_virt p` is modelled as the physical address `p` itself.  `map_page`
descends three levels, allocating the tables that are missing, and writes the leaf.
`translate` is the walk the processor makes.
-/

namespace Rhoudveine.Mm
open Words

def pagePresent : UInt64 := 1
def pageRw : UInt64 := 2
def pageUser : UInt64 := 4
def pagePwt : UInt64 := 8
def pagePcd : UInt64 := 16
def pageNoExec : UInt64 := 0x8000000000000000

/-- `PADDR_MASK`. -/
def paddrMask : UInt64 := 0x000FFFFFFFFFF000

/-- Physical memory, the CR3 register and the frame allocator. -/
structure Vm where
  mem : Memory
  cr3 : UInt64
  pfa : Pfa

/-- Where entry `i` of the table at physical address `table` lies. -/
def entryAddr (table : UInt64) (i : Fin 512) : UInt64 := table + 8 * UInt64.ofNat i

namespace Vm

def entry (vm : Vm) (table : UInt64) (i : Fin 512) : UInt64 := vm.mem.load64 (entryAddr table i)

def setEntry (vm : Vm) (table : UInt64) (i : Fin 512) (e : UInt64) : Vm :=
  { vm with mem := vm.mem.store64 (entryAddr table i) e }

/-- The physical address of the PML4. -/
def root (vm : Vm) : UInt64 := vm.cr3 &&& paddrMask

end Vm

/-- `(virt_addr >> shift) & 0x1FF`. -/
def tableIndex (virtAddr shift : UInt64) : Fin 512 :=
  ⟨((virtAddr >>> shift) &&& 0x1FF).toNat, by
    rw [toNat_and_low _ _ (k := 9) rfl]
    exact Nat.mod_lt _ (by norm_num)⟩

/-- The flags every parent entry takes over from the mapping. -/
def parentFlags (flags : UInt64) : UInt64 := (flags &&& pageUser) ||| (flags &&& (pagePwt ||| pagePcd))

/-- A frame after `custom_memset(phys_to_virt(frame), 0, PAGE_SIZE)`. -/
def Vm.clearFrame (vm : Vm) (frame : UInt64) (pfa : Pfa) : Vm :=
  { vm with pfa := pfa, mem := vm.mem.memset frame 0 4096 }

/-- The entry `map_page` writes for a new table. -/
def tableEntry (frame flags : UInt64) : UInt64 :=
  frame ||| pagePresent ||| pageRw ||| parentFlags flags

/-- One level of `map_page`: the table below entry `i`, which is allocated and cleared if the
entry is not present.  `none` is the out-of-memory `return`. -/
def descend (vm : Vm) (flags table : UInt64) (i : Fin 512) : Option UInt64 × Vm :=
  if vm.entry table i &&& pagePresent = 0 then
    let alloc := pfaAllocLow vm.pfa
    if alloc.1 = 0 then (none, { vm with pfa := alloc.2 })
    else
      let vm := (vm.clearFrame alloc.1 alloc.2).setEntry table i (tableEntry alloc.1 flags)
      (some (vm.entry table i &&& paddrMask), vm)
  else
    let vm := vm.setEntry table i (vm.entry table i ||| parentFlags flags)
    (some (vm.entry table i &&& paddrMask), vm)

/-- `map_page`; the flag says whether the leaf was written. -/
def mapPage (vm : Vm) (physAddr virtAddr flags : UInt64) : Bool × Vm :=
  match descend vm flags vm.root (tableIndex virtAddr 39) with
  | (none, vm) => (false, vm)
  | (some pdpt, vm) =>
    match descend vm flags pdpt (tableIndex virtAddr 30) with
    | (none, vm) => (false, vm)
    | (some pdt, vm) =>
      match descend vm flags pdt (tableIndex virtAddr 21) with
      | (none, vm) => (false, vm)
      | (some pt, vm) => (true, vm.setEntry pt (tableIndex virtAddr 12) (physAddr ||| flags))

/-! ## The processor's walk -/

/-- Bit 7 of an entry above the last level: it maps a large page. -/
def pageLarge : UInt64 := 128

/-- The table an entry points to. -/
def nextTable (e : UInt64) : Option UInt64 :=
  if bit e 0 && !bit e 7 then some (e &&& paddrMask) else none

/-- Entries that end the walk, by the number of levels below them.  A PML4 entry is never
a leaf. -/
def isLeaf (levels : ℕ) (e : UInt64) : Bool :=
  match levels with
  | 0 => bit e 0
  | 1 | 2 => bit e 0 && bit e 7
  | _ => false

/-- The indices of the walk for `virtAddr`. -/
def indices (virtAddr : UInt64) : List (Fin 512) :=
  [tableIndex virtAddr 39, tableIndex virtAddr 30, tableIndex virtAddr 21, tableIndex virtAddr 12]

/-- What the walk finds: the leaf entry, the number of levels left below it (0 for a page of
4 KiB), and whether every entry on the way allows user access. -/
structure Mapping where
  leaf : UInt64
  levels : ℕ
  user : Bool
  deriving DecidableEq

def Mapping.frame (m : Mapping) : UInt64 := m.leaf &&& paddrMask

def Mapping.flags (m : Mapping) : UInt64 := m.leaf &&& ~~~paddrMask

/-- The low bits of an address that a leaf with `levels` levels below it leaves alone. -/
def offsetMask (levels : ℕ) : UInt64 :=
  match levels with
  | 0 => 0xFFF
  | 1 => 0x1FFFFF
  | _ => 0x3FFFFFFF

namespace Vm

def lookup (vm : Vm) (virtAddr : UInt64) : Option (UInt64 × ℕ) :=
  Radix.find nextTable isLeaf vm.entry vm.root (indices virtAddr)

/-- Every entry the walk reads has `PAGE_USER`. -/
def userPath (vm : Vm) (virtAddr : UInt64) : Bool :=
  Radix.pathAll nextTable isLeaf vm.entry (fun e => bit e 2) vm.root (indices virtAddr)

def translate (vm : Vm) (virtAddr : UInt64) : Option Mapping :=
  (vm.lookup virtAddr).map fun (leaf, levels) => ⟨leaf, levels, vm.userPath virtAddr⟩

/-- The physical address of the byte at `virtAddr`. -/
def physAt (vm : Vm) (virtAddr : UInt64) : Option UInt64 :=
  (vm.lookup virtAddr).map fun (leaf, levels) =>
    (leaf &&& paddrMask &&& ~~~offsetMask levels) ||| (virtAddr &&& offsetMask levels)

/-- The frames the walk can read: the PML4 and the tables it leads to. -/
def IsTable (vm : Vm) (k : UInt64) : Prop := Radix.IsTable nextTable vm.entry vm.root 3 k

end Vm

/-! ## Pages -/

theorem toNat_tableIndex (virtAddr : UInt64) {shift : UInt64} {k : ℕ} (hshift : shift.toNat = k)
    (hk : k < 64) : (tableIndex virtAddr shift : ℕ) = virtAddr.toNat / 2 ^ k % 2 ^ 9 := by
  change ((virtAddr >>> shift) &&& 0x1FF).toNat = _
  rw [toNat_and_low _ _ (k := 9) rfl, UInt64.toNat_shiftRight, hshift, Nat.mod_eq_of_lt hk,
    Nat.shiftRight_eq_div_pow]

/-- Two addresses have the same walk when they agree on bits 12 to 47. -/
theorem indices_eq_iff {v v' : UInt64} :
    indices v = indices v' ↔ v.toNat / 4096 % 2 ^ 36 = v'.toNat / 4096 % 2 ^ 36 := by
  simp only [indices, List.cons.injEq, and_true, ← Fin.val_inj]
  rw [toNat_tableIndex v (k := 39) rfl (by norm_num), toNat_tableIndex v (k := 30) rfl (by norm_num),
    toNat_tableIndex v (k := 21) rfl (by norm_num), toNat_tableIndex v (k := 12) rfl (by norm_num),
    toNat_tableIndex v' (k := 39) rfl (by norm_num), toNat_tableIndex v' (k := 30) rfl (by norm_num),
    toNat_tableIndex v' (k := 21) rfl (by norm_num), toNat_tableIndex v' (k := 12) rfl (by norm_num)]
  omega

end Rhoudveine.Mm
