import Rhoudveine.Drivers.Ahci
import Rhoudveine.Lib.Run
import Rhoudveine.Mm.Init

/-!
# Where AHCI commands are built

The memory that `ahci_init` allocates for a port, and the addresses at which `port_read` and
`port_write` build their commands.  The driver uses the addresses of frames as pointers.
-/

namespace Rhoudveine.Ahci
open Mm Search

/-! ## Setting a port up -/

inductive DeviceType
  | none | sata | satapi | semb | pm
  deriving DecidableEq, Repr

/-- `ssts` and `sig` are the readings of the registers. -/
def checkType (ssts sig : UInt32) : DeviceType :=
  if ssts &&& 0xF ≠ 3 ∨ (ssts >>> 8) &&& 0xFF ≠ 1 then .none
  else if sig = 0xEB140101 then .satapi
  else if sig = 0xC33C0101 then .semb
  else if sig = 0x96690101 then .pm
  else .sata

/-- A port after `ahci_init`: what it wrote to the registers, the command table it allocated, and
memory. -/
structure Setup where
  clb : UInt32
  clbu : UInt32
  fb : UInt32
  fbu : UInt32
  cmdTable : UInt64
  mem : Memory

/-- The address that the two registers give. -/
def Setup.cmdList (p : Setup) : UInt64 := p.clbu.toUInt64 <<< 32 ||| p.clb.toUInt64

/-- The part of `ahci_init` that sets the first SATA port up. -/
def portInit (s : Pfa) (mem : Memory) : Option Setup × Pfa :=
  let (cmdList, s) := pfaAlloc s
  if cmdList = 0 then (none, s)
  else
    let mem := mem.memset cmdList 0 4096
    let (fis, s) := pfaAlloc s
    if fis = 0 then (none, s)
    else
      let mem := mem.memset fis 0 4096
      let (cmdTable, s) := pfaAlloc s
      if cmdTable = 0 then (none, s)
      else
        let mem := mem.memset cmdTable 0 4096
        -- `ctba` and `ctbau` of the first header
        let mem := mem.storeLE (cmdList + 8) 4 cmdTable.toUInt32.toNat
        let mem := mem.storeLE (cmdList + 12) 4 (cmdTable >>> 32).toUInt32.toNat
        (some
          { clb := cmdList.toUInt32
            clbu := (cmdList >>> 32).toUInt32
            fb := fis.toUInt32
            fbu := (fis >>> 32).toUInt32
            cmdTable := cmdTable
            mem := mem }, s)

/-- `none` for -1.  `pi`, `ssts` and `sig` are the readings of the controller's and the ports'
registers. -/
def ahciInit (pi : UInt32) (ssts sig : ℕ → UInt32) (s : Pfa) (mem : Memory) : Option Setup × Pfa :=
  let sata := firstSome
    (fun i =>
      if (pi >>> UInt32.ofNat i) &&& 1 ≠ 0 ∧ checkType (ssts i) (sig i) = .sata then some i
      else none)
    32 0
  match sata with
  | none => (none, s)
  | some _ => portInit s mem

/-! ## Calls -/

structure Call where
  transfer : Transfer
  isTransfer : transfer = readDma ∨ transfer = writeDma
  lba : UInt64
  count : UInt32
  buffer : UInt64
  reading : PortReg → ℕ → UInt32
  /-- What the device does to memory before the call. -/
  dma : Memory → Memory

def Call.port (call : Call) (p : Setup) : Port := ⟨p.clb, call.reading⟩

/-- The slot that the call takes. -/
def Call.slot (call : Call) : Option ℕ := freeSlot (call.reading .sact 0 ||| call.reading .ci 0)

/-- One call; the result is memory after it. -/
def Call.run (p : Setup) (mem : Memory) (call : Call) : Option Memory :=
  some (portTransfer call.transfer (call.port p) call.lba call.count call.buffer
    (Io.start (call.dma mem))).2.mem

/-- The pointer `cmdheader`. -/
def cmdheader (clb : UInt32) (slot : ℕ) : UInt64 := clb.toUInt64 + 32 * UInt64.ofNat slot

/-- The pointer `cmdtbl`, which is read from the header. -/
def cmdtbl (mem : Memory) (clb : UInt32) (slot : ℕ) : UInt64 :=
  UInt64.ofNat (mem.loadLE (cmdheader clb slot + 8) 4)

/-- The header is in the command list that was programmed, the table is the one that was allocated
and recorded for the slot, and the rest of memory stays as it is. -/
structure Confined (p : Setup) (mem : Memory) (call : Call) : Prop where
  header : ∀ slot, call.slot = some slot → cmdheader p.clb slot = p.cmdList + 32 * UInt64.ofNat slot
  table : ∀ slot, call.slot = some slot → slot = 0 ∧ cmdtbl (call.dma mem) p.clb slot = p.cmdTable
  rest : ∀ mem', call.run p mem = some mem' → ∀ x,
    (∀ slot, call.slot = some slot → ¬ Memory.InRange (p.cmdList + 32 * UInt64.ofNat slot) 32 x ∧
      ¬ Memory.InRange p.cmdTable 144 x) → mem' x = call.dma mem x

/-! ## The pointers of a call -/

variable {p : Setup} {call : Call} {s s' : Pfa} {mem : Memory}

/-- The number of the table is not changed by filling the header in. -/
theorem cmdtbl_fillHeader (t : Transfer) (clb : UInt32) (slot : ℕ) (mem : Memory) :
    cmdtbl (fillHeader t (cmdheader clb slot) mem) clb slot = cmdtbl mem clb slot := by
  unfold cmdtbl
  generalize cmdheader clb slot = header
  apply congrArg UInt64.ofNat
  apply Memory.loadLE_congr
  intro x hx
  have htwo : (2 : UInt64).toNat = 2 := rfl
  have height : (8 : UInt64).toNat = 8 := rfl
  have hlt := header.toNat_lt
  have hlt' := x.toNat_lt
  rw [Memory.InRange, UInt64.toNat_sub, UInt64.toNat_add, height] at hx
  have hne : x ≠ header := by
    rintro rfl
    omega
  have hout : ¬ Memory.InRange (header + 2) 2 x := by
    rw [Memory.InRange, UInt64.toNat_sub, UInt64.toNat_add, htwo]
    omega
  unfold fillHeader
  rw [Memory.storeLE_of_not_inRange _ _ (by norm_num) hout, Memory.store8, Memory.store8,
    Function.update_of_ne hne, Function.update_of_ne hne]

/-- A command is built behind these two pointers. -/
theorem fillCommand_eq (t : Transfer) (clb : UInt32) (slot : ℕ) (lba : UInt64) (count : UInt32)
    (buffer : UInt64) (mem : Memory) :
    fillCommand t clb slot lba count buffer mem =
      fillFis t (cmdtbl mem clb slot) lba count (fillPrdt (cmdtbl mem clb slot) count buffer
        ((fillHeader t (cmdheader clb slot) mem).memset (cmdtbl mem clb slot) 0 144)) := by
  have htable := cmdtbl_fillHeader t clb slot mem
  rw [← htable]
  rfl

theorem findCmdslot_start (call : Call) (p : Setup) (mem : Memory) :
    (findCmdslot (call.port p) ((Io.start mem).write .is 0xFFFFFFFF)).1 = call.slot := rfl

/-- Without a free slot memory stays as it is. -/
theorem Call.run_of_none (hslot : call.slot = none) : call.run p mem = some (call.dma mem) := by
  have hfind := findCmdslot_start call p (call.dma mem)
  rw [hslot] at hfind
  rw [Call.run, portTransfer]
  dsimp only
  split
  · rename_i io heq
    have hio := congrArg Prod.snd heq
    dsimp only at hio
    rw [← hio]
    rfl
  · rename_i slot io heq
    rw [heq] at hfind
    cases hfind

theorem confined_of_none (hslot : call.slot = none) : Confined p mem call := by
  constructor
  · intro slot hsome
    rw [hslot] at hsome
    cases hsome
  · intro slot hsome
    rw [hslot] at hsome
    cases hsome
  · intro mem' hrun x _
    rw [Call.run_of_none hslot] at hrun
    rw [← Option.some.inj hrun]

/-! ## The command list is above 4 GiB -/

theorem pfaAlloc_high (hs : WellFormed s) (hne : (pfaAlloc s).1 ≠ 0) :
    2 ^ 32 ≤ (pfaAlloc s).1.toNat := by
  rcases pfaAlloc_cases hs with ⟨i, hi, -, -, halloc⟩ | ⟨-, halloc⟩
  · rw [halloc]
    dsimp only
    rw [toNat_high_frame hi]
    omega
  · rw [halloc] at hne
    exact absurd rfl hne

theorem portInit_high (hs : WellFormed s) (h : portInit s mem = (some p, s')) :
    p.clbu ≠ 0 := by
  rw [portInit] at h
  dsimp only at h
  split at h
  · cases (Prod.mk.inj h).1
  · rename_i hne
    have hhigh := pfaAlloc_high hs hne
    split at h
    · cases (Prod.mk.inj h).1
    · split at h
      · cases (Prod.mk.inj h).1
      · obtain rfl := Option.some.inj (Prod.mk.inj h).1
        intro hzero
        have hnat := congrArg UInt32.toNat hzero
        rw [UInt64.toNat_toUInt32, UInt64.toNat_shiftRight] at hnat
        have hlt := (pfaAlloc s).1.toNat_lt
        have hshift : (32 : UInt64).toNat % 64 = 32 := rfl
        rw [hshift, Nat.shiftRight_eq_div_pow, UInt32.toNat_zero] at hnat
        omega

/-- The header that a call uses is never in the command list. -/
theorem cmdheader_ne (hclbu : p.clbu ≠ 0) (slot : ℕ) :
    cmdheader p.clb slot ≠ p.cmdList + 32 * UInt64.ofNat slot := by
  intro heq
  have hlow : p.clb.toUInt64 = p.cmdList := add_right_cancel heq
  apply hclbu
  rw [← UInt32.toNat_inj, UInt32.toNat_zero]
  have hnat := congrArg UInt64.toNat hlow
  have hshift : (32 : UInt64).toNat % 64 = 32 := rfl
  have hhi := p.clbu.toNat_lt
  have hlo := p.clb.toNat_lt
  rw [Setup.cmdList, UInt64.toNat_or, UInt64.toNat_shiftLeft, hshift, UInt32.toNat_toUInt64,
    UInt32.toNat_toUInt64, Nat.shiftLeft_eq, Nat.mod_eq_of_lt (by omega), mul_comm,
    ← Nat.two_pow_add_eq_or_of_lt hlo] at hnat
  omega

theorem confined_iff (hclbu : p.clbu ≠ 0) : Confined p mem call ↔ call.slot = none := by
  constructor
  · intro h
    cases hslot : call.slot with
    | none => rfl
    | some slot => exact absurd (h.header slot hslot) (cmdheader_ne hclbu slot)
  · exact confined_of_none

/-! ## Runs -/

theorem ahciInit_high {pi : UInt32} {ssts sig : ℕ → UInt32} (hs : WellFormed s)
    (h : ahciInit pi ssts sig s mem = (some p, s')) : p.clbu ≠ 0 := by
  rw [ahciInit] at h
  split at h
  · cases (Prod.mk.inj h).1
  · exact portInit_high hs h

theorem always_confined_iff (hclbu : p.clbu ≠ 0) (mem : Memory) (calls : List Call) :
    Always (Call.run p) (Confined p) mem calls ↔ ∀ call ∈ calls, call.slot = none := by
  induction calls generalizing mem with
  | nil => exact iff_of_true trivial fun call hcall => absurd hcall List.not_mem_nil
  | cons call calls ih =>
    rw [List.forall_mem_cons]
    constructor
    · rintro ⟨hconfined, hrest⟩
      exact ⟨(confined_iff hclbu).mp hconfined, (ih _).mp (hrest _ rfl)⟩
    · rintro ⟨hslot, hrest⟩
      exact ⟨(confined_iff hclbu).mpr hslot, fun mem' _ => (ih mem').mpr hrest⟩

/-- Three frames above 4 GiB. -/
def threeFrames : Pfa :=
  pfaFree (pfaFree (pfaFree clearedPfa 0x100000000) 0x100001000) 0x100002000

theorem threeFrames_wellFormed : WellFormed threeFrames := by
  have hone : Managed 0x100000000 := ⟨by decide, by decide, by decide⟩
  have htwo : Managed 0x100001000 := ⟨by decide, by decide, by decide⟩
  have hthree : Managed 0x100002000 := ⟨by decide, by decide, by decide⟩
  exact pfaFree_wellFormed (pfaFree_wellFormed (pfaFree_wellFormed clearedPfa_wellFormed hone) htwo)
    hthree

/-- A port with a SATA disk and nothing in memory. -/
theorem ahciInit_threeFrames :
    ∃ p s', ahciInit 1 (fun _ => 0x103) (fun _ => 0x101) threeFrames (fun _ => 0) = (some p, s') :=
  ⟨_, _, rfl⟩

/-- A read of one sector through a port whose slots are all free. -/
def readSector : Call where
  transfer := readDma
  isTransfer := Or.inl rfl
  lba := 0
  count := 1
  buffer := 0x200000
  reading := fun _ _ => 0
  dma := id

end Rhoudveine.Ahci
