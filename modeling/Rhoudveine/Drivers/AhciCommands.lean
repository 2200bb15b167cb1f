import Rhoudveine.Drivers.AhciMemory
import Rhoudveine.Fat32.Mount

/-!
# What an AHCI command says

The command that `port_read` and `port_write` build in memory, as the device reads it, against the
arguments of the call.
-/

namespace Rhoudveine.Ahci
open Fat32

/-! ## The command of a table -/

/-- `lba0` to `lba5` of the FIS. -/
def fisLba (mem : Memory) (table : UInt64) : ℕ :=
  (mem (table + 4)).toNat + 256 * ((mem (table + 5)).toNat + 256 * ((mem (table + 6)).toNat +
    256 * ((mem (table + 8)).toNat + 256 * ((mem (table + 9)).toNat +
      256 * (mem (table + 10)).toNat))))

/-- The sectors of the FIS: the device takes a `count` of zero for 65536. -/
def fisCount (mem : Memory) (table : UInt64) : ℕ :=
  if mem.loadLE (table + 12) 2 = 0 then 65536 else mem.loadLE (table + 12) 2

/-- `dba` and `dbau` of the PRDT entry. -/
def prdtBuffer (mem : Memory) (table : UInt64) : ℕ :=
  mem.loadLE (table + 128) 4 + 2 ^ 32 * mem.loadLE (table + 132) 4

/-- The bytes of the PRDT entry: `dbc` has 22 bits and counts from zero. -/
def prdtByteCount (mem : Memory) (table : UInt64) : ℕ :=
  mem.loadLE (table + 140) 4 % 2 ^ 22 + 1

/-- The table says what the call asks for. -/
structure Encodes (mem : Memory) (table lba : UInt64) (count : UInt32) (buffer : UInt64) : Prop where
  lba_eq : fisLba mem table = lba.toNat
  count_eq : fisCount mem table = count.toNat
  bytes_eq : prdtByteCount mem table = count.toNat * 512
  buffer_eq : prdtBuffer mem table = buffer.toNat

/-- The counts with which the file system calls the driver: the boot sector, the FAT at mount, a
cluster and the FAT that is written back. -/
def driverCounts (bs : BootSector) : List UInt32 :=
  [1, bs.sectorsToRead, bs.sectorsPerCluster.toUInt32, bs.fatSize32]

/-! ## The table that is filled in -/

variable {mem : Memory} {table lba buffer x : UInt64} {count : UInt32} {t : Transfer}

/-- The FIS takes the first 14 bytes. -/
theorem fillFis_of_not_inRange (hx : ¬ Memory.InRange table 14 x) :
    fillFis t table lba count mem x = mem x := by
  have hne : ∀ k : UInt64, k.toNat < 14 → x ≠ table + k := by
    rintro k hk rfl
    apply hx
    rwa [Memory.InRange, add_sub_cancel_left]
  have hzero : x ≠ table := by simpa using hne 0 (by decide)
  simp [fillFis, Memory.store8, Memory.storeLE, add_assoc, hzero,
    hne 1 (by decide), hne 2 (by decide), hne 4 (by decide), hne 5 (by decide), hne 6 (by decide),
    hne 7 (by decide), hne 8 (by decide), hne 9 (by decide), hne 10 (by decide),
    hne 12 (by decide), hne 13 (by decide)]

theorem loadLE_fillFis_behind {k : UInt64} {n : ℕ} (hk : 14 ≤ k.toNat) (hn : k.toNat + n ≤ 2 ^ 64) :
    (fillFis t table lba count mem).loadLE (table + k) n = mem.loadLE (table + k) n :=
  Memory.loadLE_congr fun _ hx => fillFis_of_not_inRange (Memory.not_inRange_of_add hx hk hn)

theorem fisLba_fillFis (hlba : lba.toNat < 2 ^ 48) :
    fisLba (fillFis t table lba count mem) table = lba.toNat := by
  simp [fisLba, fillFis, Memory.store8, Memory.storeLE, add_assoc, Nat.shiftRight_eq_div_pow]
  omega

theorem fisCount_fillFis : fisCount (fillFis t table lba count mem) table =
    if count.toNat % 65536 = 0 then 65536 else count.toNat % 65536 := by
  have hload : (fillFis t table lba count mem).loadLE (table + 12) 2 = count.toNat % 256 ^ 2 :=
    Memory.loadLE_storeLE _ _ (by norm_num) _
  rw [fisCount, hload]
  rfl

theorem prdtBuffer_fillPrdt :
    prdtBuffer (fillPrdt table count buffer mem) table = buffer.toNat := by
  have h128 : (128 : UInt64).toNat = 128 := rfl
  have h132 : (132 : UInt64).toNat = 132 := rfl
  have h140 : (140 : UInt64).toNat = 140 := rfl
  have hlow : (fillPrdt table count buffer mem).loadLE (table + 128) 4 = buffer.toNat % 256 ^ 4 := by
    unfold fillPrdt
    dsimp only
    rw [Memory.loadLE_storeLE_offset _ _ _ (by omega) (by omega) (by omega),
      Memory.loadLE_storeLE_offset _ _ _ (by omega) (by omega) (by omega),
      Memory.loadLE_storeLE_offset _ _ _ (by omega) (by omega) (by omega),
      Memory.loadLE_storeLE _ _ (by norm_num)]
  have hhigh : (fillPrdt table count buffer mem).loadLE (table + 132) 4 =
      (buffer >>> 32).toNat % 256 ^ 4 := by
    unfold fillPrdt
    dsimp only
    rw [Memory.loadLE_storeLE_offset _ _ _ (by omega) (by omega) (by omega),
      Memory.loadLE_storeLE_offset _ _ _ (by omega) (by omega) (by omega),
      Memory.loadLE_storeLE _ _ (by norm_num)]
  have hlt := buffer.toNat_lt
  have hshift : (buffer >>> 32).toNat = buffer.toNat / 2 ^ 32 := by
    rw [UInt64.toNat_shiftRight]
    exact Nat.shiftRight_eq_div_pow _ _
  rw [prdtBuffer, hlow, hhigh, hshift]
  omega

theorem toNat_dbc (count : UInt32) : ((count * 512 - 1) &&& 0x3FFFFF).toNat =
    (count.toNat * 512 + (2 ^ 22 - 1)) % 2 ^ 22 := by
  have h512 : (512 : UInt32).toNat = 512 := rfl
  rw [UInt32.toNat_and, show (0x3FFFFF : UInt32).toNat = 2 ^ 22 - 1 from rfl,
    Nat.and_two_pow_sub_one_eq_mod, UInt32.toNat_sub, UInt32.toNat_mul, UInt32.toNat_one, h512]
  omega

theorem prdtByteCount_fillPrdt (hzero : mem.loadLE (table + 140) 4 = 0) :
    prdtByteCount (fillPrdt table count buffer mem) table =
      (count.toNat * 512 + (2 ^ 22 - 1)) % 2 ^ 22 + 1 := by
  have h128 : (128 : UInt64).toNat = 128 := rfl
  have h132 : (132 : UInt64).toNat = 132 := rfl
  have h140 : (140 : UInt64).toNat = 140 := rfl
  unfold prdtByteCount fillPrdt
  dsimp only
  rw [Memory.loadLE_storeLE _ _ (by norm_num), Memory.loadLE_storeLE _ _ (by norm_num),
    Memory.loadLE_storeLE_offset _ _ _ (by omega) (by omega) (by omega),
    Memory.loadLE_storeLE_offset _ _ _ (by omega) (by omega) (by omega), hzero]
  have hdbc := toNat_dbc count
  generalize (count * 512 - 1) &&& 0x3FFFFF = dbc at hdbc
  have hlt : dbc.toNat < 2 ^ 22 := by omega
  have hclear : (UInt32.ofNat 0 &&& ~~~0x3FFFFF ||| dbc).toNat = dbc.toNat := by simp
  have hkeep : (dbc &&& ~~~0x80000000).toNat = dbc.toNat := by
    rw [UInt32.toNat_and, show (~~~0x80000000 : UInt32).toNat = 2 ^ 31 - 1 from rfl,
      Nat.and_two_pow_sub_one_eq_mod]
    omega
  rw [hclear, Nat.mod_eq_of_lt (by omega : dbc.toNat < 256 ^ 4), UInt32.ofNat_toNat, hkeep]
  omega

theorem prdt_fillFis : prdtBuffer (fillFis t table lba count mem) table = prdtBuffer mem table ∧
    prdtByteCount (fillFis t table lba count mem) table = prdtByteCount mem table := by
  unfold prdtBuffer prdtByteCount
  rw [loadLE_fillFis_behind (by decide) (by decide), loadLE_fillFis_behind (by decide) (by decide),
    loadLE_fillFis_behind (by decide) (by decide)]
  exact ⟨rfl, rfl⟩

/-- The command that `port_read` and `port_write` build says what they are asked for exactly for 1
to 8192 sectors. -/
theorem port_command_encodes_iff (t : Transfer) (clb : UInt32) (slot : ℕ) {lba : UInt64}
    (hlba : lba.toNat < 2 ^ 48) (count : UInt32) (buffer : UInt64) (mem : Memory) :
    Encodes (fillCommand t clb slot lba count buffer mem) (cmdtbl mem clb slot) lba count buffer ↔
      1 ≤ count.toNat ∧ count.toNat ≤ 8192 := by
  rw [fillCommand_eq]
  generalize cmdtbl mem clb slot = table
  have hzero := Memory.loadLE_memset_zero (fillHeader t (cmdheader clb slot) mem) table 140 (n := 144)
    (l := 4) (by decide) (by norm_num)
  generalize (fillHeader t (cmdheader clb slot) mem).memset table 0 144 = mem at hzero
  have hprdt : prdtBuffer (fillFis t table lba count (fillPrdt table count buffer mem)) table =
        buffer.toNat ∧
      prdtByteCount (fillFis t table lba count (fillPrdt table count buffer mem)) table =
        (count.toNat * 512 + (2 ^ 22 - 1)) % 2 ^ 22 + 1 :=
    ⟨prdt_fillFis.1.trans prdtBuffer_fillPrdt, prdt_fillFis.2.trans (prdtByteCount_fillPrdt hzero)⟩
  have hlt := count.toNat_lt
  constructor
  · intro h
    have hbytes := h.bytes_eq
    rw [hprdt.2] at hbytes
    omega
  · rintro ⟨hone, hmax⟩
    refine ⟨fisLba_fillFis hlba, ?_, ?_, hprdt.1⟩
    · rw [fisCount_fillFis, if_neg (by omega)]
      omega
    · rw [hprdt.2]
      omega

/-- A cluster of eight sectors is read. -/
theorem port_command_encodes_cluster :
    Encodes (fillCommand readDma 0x1000 0 40000 8 0x200000 fun _ => 0)
        (cmdtbl (fun _ => 0) 0x1000 0) 40000 8 0x200000 ↔
      1 ≤ (8 : UInt32).toNat ∧ (8 : UInt32).toNat ≤ 8192 :=
  port_command_encodes_iff readDma 0x1000 0 (by decide) 8 0x200000 _

/-- A volume with a FAT of this size that is mounted. -/
def fatOf (fatSize32 : UInt32) : BootSector := ⟨512, 8, 32, 2, 0, fatSize32, 2, 0⟩

/-- The size of a FAT is nowhere bounded, and one above 4 MiB is written back by a command for fewer
bytes. -/
theorem large_fat_not_encoded :
    ¬ ∀ bs : BootSector, bs.valid = true → ∀ count ∈ driverCounts bs,
      ∀ (t : Transfer) (clb : UInt32) (slot : ℕ) (lba buffer : UInt64) (mem : Memory),
        lba.toNat < 2 ^ 48 →
          Encodes (fillCommand t clb slot lba count buffer mem) (cmdtbl mem clb slot) lba count
            buffer := by
  intro hall
  have hencodes := hall (fatOf 8193) rfl 8193 (by decide) writeDma 0 0 32 0 (fun _ => 0) (by decide)
  have hbytes := hencodes.bytes_eq
  rw [fillCommand_eq, prdt_fillFis.2, prdtByteCount_fillPrdt
    (Memory.loadLE_memset_zero _ _ 140 (by decide) (by norm_num))] at hbytes
  revert hbytes
  decide

end Rhoudveine.Ahci
