import Rhoudveine.Core.Sched
import Rhoudveine.Drivers.Acpi

/-!
# Processors at boot

The calls of `kernel_main` that set up the processors of the scheduler.
-/

namespace Rhoudveine.Boot
open Sched Acpi

/-- The variables of the scheduler and of ACPI. -/
structure Kernel where
  sched : Sched.State
  acpi : Acpi.Acpi

def Kernel.boot : Kernel := ⟨Sched.boot, Acpi.Acpi.boot⟩

/-- `sched_init` in `kernel_main`. -/
def Kernel.initSched (k : Kernel) : Kernel :=
  { k with sched := schedInit k.acpi.acpiCpuCount k.acpi.acpiCpuApicIds k.sched }

/-- `acpi_init` in `kernel_main`; `madt` is the MADT that it finds. -/
def Kernel.initAcpi (rounds : ℕ) (mem : ℕ → UInt8) (madt : Option ℕ) (k : Kernel) : Option Kernel :=
  (acpiParseMadt rounds mem madt k.acpi).map fun acpi => { k with acpi := acpi }

/-- The initialisation in the order of `kernel_main`.  No other of its calls touches these
variables. -/
def kernelMain (rounds : ℕ) (mem : ℕ → UInt8) (madt : Option ℕ) : Option Kernel :=
  Kernel.boot.initSched.initAcpi rounds mem madt

def schedCpuCount (s : Sched.State) : ℕ := s.cpuCount

/-- The scheduler has the processors with the APIC ids `ids`, up to 64 of them. -/
structure Reflects (ids : List UInt8) (s : Sched.State) : Prop where
  count : schedCpuCount s = min ids.length 64
  apicId : ∀ i < min ids.length 64, ∀ id, ids[i]? = some id → (s.cpus i).apicId = id.toUInt32

/-! ## Order of the calls -/

variable {mem : ℕ → UInt8} {madt rounds : ℕ} {entries : List Entry}

/-- When `sched_init` runs, ACPI has not been set up: one processor with id 0. -/
theorem initSched_boot :
    schedCpuCount Kernel.boot.initSched.sched = 1 ∧
      (Kernel.boot.initSched.sched.cpus 0).apicId = 0 := ⟨rfl, rfl⟩

theorem reflects_boot_iff {ids : List UInt8} (hids : 1 ≤ ids.length) :
    Reflects ids Kernel.boot.initSched.sched ↔ ids = [0] := by
  obtain ⟨hcount, hid⟩ := initSched_boot
  constructor
  · intro h
    have hlength := h.count
    rw [hcount] at hlength
    obtain ⟨id, rfl⟩ := List.length_eq_one_iff.mp (show ids.length = 1 by omega)
    have happly := h.apicId 0 Nat.one_pos id rfl
    rw [hid] at happly
    have hnat := congrArg UInt32.toNat happly
    rw [UInt8.toNat_toUInt32] at hnat
    have hzero : id = 0 := UInt8.toNat_inj.mp hnat.symm
    rw [hzero]
  · rintro rfl
    refine ⟨hcount, ?_⟩
    intro i hi id hid'
    obtain rfl : i = 0 := by
      have hone : i < 1 := hi
      omega
    obtain rfl := Option.some.inj hid'
    exact hid

/-- An enabled local APIC takes eight bytes of the table. -/
theorem length_enabledIds (h : ∀ e ∈ entries, e.WellFormed) :
    (enabledIds entries).length * 8 ≤ (encodeAll entries).length := by
  induction entries with
  | nil => exact Nat.zero_le _
  | cons e entries ih =>
    obtain ⟨he, hentries⟩ := List.forall_mem_cons.mp h
    have hrest := ih hentries
    have hsplit : encodeAll (e :: entries) = e.encode ++ encodeAll entries := List.flatMap_cons ..
    rw [hsplit, List.length_append, e.length_encode]
    unfold enabledIds at hrest ⊢
    rw [List.filterMap_cons]
    by_cases hlocal : e.type = madtTypeLocalApic ∧ e.flags &&& 1 ≠ 0
    · have height := he.localApic hlocal.1
      rw [Entry.enabled, if_pos hlocal]
      dsimp only
      rw [List.length_cons]
      omega
    · rw [Entry.enabled, if_neg hlocal]
      dsimp only
      omega

theorem detected_ofNat {n : ℕ} (hpos : 1 ≤ n) (hlt : n < 2 ^ 31) :
    detected (Int32.ofNat n) = min n 64 := by
  have hint : (Int32.ofNat n).toInt = n := Int32.toInt_ofNat_of_lt hlt
  have hzero : (0 : Int32).toInt = 0 := rfl
  have hgt : 0 < Int32.ofNat n := by
    rw [Int32.lt_iff_toInt_lt, hint, hzero]
    omega
  rw [detected, if_pos hgt, hint, Int.toNat_natCast]
  rfl

/-- In the other order the scheduler would have the processors of the table. -/
theorem initSched_reflects {a : Acpi.Acpi} {ids : List UInt8} (hpos : 1 ≤ ids.length)
    (hlt : ids.length < 2 ^ 31) (hcount : a.acpiCpuCount = Int32.ofNat ids.length)
    (hapic : ∀ i < 64, ∀ id, ids[i]? = some id → a.acpiCpuApicIds i = id.toUInt32) :
    Reflects ids (Kernel.mk Sched.boot a).initSched.sched := by
  have hdetected : detected a.acpiCpuCount = min ids.length 64 := by
    rw [hcount]
    exact detected_ofNat hpos hlt
  refine ⟨hdetected, ?_⟩
  intro i hi id hid
  unfold Kernel.initSched schedInit
  dsimp only
  rw [hdetected, if_pos hi]
  exact hapic i (by omega) id hid

/-! ## The whole sequence -/

/-- The scheduler gets the processors of the table exactly if there is a single one, with id 0. -/
theorem kernelMain_reflects_iff (h : IsMadt mem madt entries) (hrounds : entries.length < rounds)
    (hids : 1 ≤ (enabledIds entries).length) :
    ∃ k, kernelMain rounds mem (some madt) = some k ∧
      (Reflects (enabledIds entries) k.sched ↔ enabledIds entries = [0]) := by
  obtain ⟨a, ha, -⟩ := acpiParseMadt_spec (x := Kernel.boot.initSched.acpi) h hrounds
  refine ⟨_, Option.map_eq_some_iff.mpr ⟨a, ha, rfl⟩, ?_⟩
  exact reflects_boot_iff hids

/-- One processor. -/
theorem kernelMain_reflects_iff_one :
    ∃ k, kernelMain 2 (fun i => (madtBytes [⟨0, [0, 0, 1, 0, 0, 0]⟩]).getD i 0) (some 0) = some k ∧
      Reflects [0] k.sched := by
  have hentries : ∀ e ∈ [Entry.mk 0 [0, 0, 1, 0, 0, 0]], e.WellFormed := by
    intro e he
    rw [List.mem_singleton.mp he]
    exact ⟨by decide, fun _ => rfl⟩
  have hmadt := isMadt_madtBytes hentries (by decide)
  obtain ⟨k, hk, hiff⟩ := kernelMain_reflects_iff hmadt Nat.one_lt_two (by decide)
  exact ⟨k, hk, hiff.mpr rfl⟩

/-- Of two processors the scheduler sees one. -/
theorem second_processor_missed :
    IsMadt (fun i => (madtBytes [⟨0, [0, 0, 1, 0, 0, 0]⟩, ⟨0, [1, 1, 1, 0, 0, 0]⟩]).getD i 0) 0
        [⟨0, [0, 0, 1, 0, 0, 0]⟩, ⟨0, [1, 1, 1, 0, 0, 0]⟩] ∧
      ∀ rounds k, kernelMain rounds
          (fun i => (madtBytes [⟨0, [0, 0, 1, 0, 0, 0]⟩, ⟨0, [1, 1, 1, 0, 0, 0]⟩]).getD i 0)
          (some 0) = some k →
        ¬ Reflects (enabledIds [⟨0, [0, 0, 1, 0, 0, 0]⟩, ⟨0, [1, 1, 1, 0, 0, 0]⟩]) k.sched := by
  refine ⟨isMadt_madtBytes ?_ (by decide), ?_⟩
  · intro e he
    rcases List.mem_cons.mp he with rfl | he
    · exact ⟨by decide, fun _ => rfl⟩
    · rw [List.mem_singleton.mp he]
      exact ⟨by decide, fun _ => rfl⟩
  · intro rounds k hk hreflects
    obtain ⟨a, -, rfl⟩ := Option.map_eq_some_iff.mp hk
    have hone := (reflects_boot_iff (by decide)).mp hreflects
    revert hone
    decide

/-- With `acpi_init` first, every table is taken over. -/
theorem initAcpi_initSched_reflects (h : IsMadt mem madt entries)
    (hrounds : entries.length < rounds) (hids : 1 ≤ (enabledIds entries).length) :
    ∃ k, Kernel.boot.initAcpi rounds mem (some madt) = some k ∧
      Reflects (enabledIds entries) k.initSched.sched := by
  obtain ⟨a, ha, hcount, hapic⟩ := acpiParseMadt_spec (x := Kernel.boot.acpi) h hrounds
  refine ⟨_, Option.map_eq_some_iff.mpr ⟨a, ha, rfl⟩, ?_⟩
  have hbytes := length_enabledIds h.wellFormed
  have hlength := LittleEndian.le_lt mem (madt + 4) 4
  rw [h.length] at hlength
  exact initSched_reflects hids (by omega) hcount hapic

end Rhoudveine.Boot
