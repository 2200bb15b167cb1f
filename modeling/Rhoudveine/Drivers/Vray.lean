import Rhoudveine.Drivers.PciDb

/-!
# The PCI bus

`vray.c`: configuration accesses through the ports 0xCF8 and 0xCFC, the scan of bus 0, and the
searches through the table it fills.  `vnode.c` makes nodes of some of its entries.
-/

namespace Rhoudveine.Vray
open PciDb

/-! ## The host bridge -/

/-- A register of configuration space. -/
structure Location where
  bus : Fin 256
  device : Fin 32
  function : Fin 8
  register : Fin 64
  deriving DecidableEq

/-- The address register and what lies behind it.  `react l old v` is what a register makes of a
write. -/
structure PciHost where
  address : UInt32
  space : Location → UInt32
  react : Location → UInt32 → UInt32 → UInt32

/-- The register that an address selects. -/
def decode (a : UInt32) : Location where
  bus := Fin.ofNat 256 (a.toNat / 2 ^ 16)
  device := Fin.ofNat 32 (a.toNat / 2 ^ 11)
  function := Fin.ofNat 8 (a.toNat / 2 ^ 8)
  register := Fin.ofNat 64 (a.toNat / 2 ^ 2)

def confAddr : UInt16 := 0xCF8

def confData : UInt16 := 0xCFC

namespace PciHost

/-- Bit 31 of the address register turns accesses to the data port into configuration accesses. -/
def enabled (h : PciHost) : Bool := 2 ^ 31 ≤ h.address.toNat

def outl (h : PciHost) (port : UInt16) (val : UInt32) : PciHost :=
  if port = confAddr then { h with address := val }
  else if port = confData ∧ h.enabled then
    { h with
      space := Function.update h.space (decode h.address)
        (h.react (decode h.address) (h.space (decode h.address)) val) }
  else h

def inl (h : PciHost) (port : UInt16) : UInt32 :=
  if port = confAddr then h.address
  else if port = confData ∧ h.enabled then h.space (decode h.address)
  else 0xFFFFFFFF

end PciHost

/-! ## Configuration accesses -/

def vrayBuildAddr (bus device func offset : UInt8) : UInt32 :=
  ((1 : UInt32) <<< 31) ||| (bus.toUInt32 <<< 16) ||| (device.toUInt32 <<< 11) |||
    (func.toUInt32 <<< 8) ||| (offset &&& 0xFC).toUInt32

def vrayCfgRead (h : PciHost) (bus device func offset : UInt8) : UInt32 × PciHost :=
  let h := h.outl confAddr (vrayBuildAddr bus device func offset)
  (h.inl confData, h)

def vrayCfgWrite (h : PciHost) (bus device func offset : UInt8) (value : UInt32) : PciHost :=
  (h.outl confAddr (vrayBuildAddr bus device func offset)).outl confData value

/-! ## The scan -/

/-- `struct vray_device`. -/
structure VrayDevice where
  bus : UInt8
  device : UInt8
  function : UInt8
  vendorId : UInt16
  deviceId : UInt16
  classCode : UInt8
  subclass : UInt8
  progIf : UInt8
  headerType : UInt8
  irq : UInt8
  name : Option String
  deriving DecidableEq

/-- `sizeof(devices) / sizeof(devices[0])`. -/
def maxDevices : ℕ := 256

/-- The host and `devices[0]` to `devices[dev_count - 1]`. -/
structure Scan where
  host : PciHost
  devices : List VrayDevice

variable (db : List PciDeviceEntry)

/-- The loop over the functions that are left. -/
def scanFunctions (device : UInt8) : List UInt8 → Scan → Scan
  | [], s => s
  | function :: functions, s =>
    let (v, host) := vrayCfgRead s.host 0 device function 0
    let vendor := (v &&& 0xFFFF).toUInt16
    let deviceId := ((v >>> 16) &&& 0xFFFF).toUInt16
    if vendor = 0xFFFF ∨ vendor = 0x0000 then
      if function = 0 then { s with host := host }
      else scanFunctions device functions { s with host := host }
    else
      let (cls, host) := vrayCfgRead host 0 device function 8
      let (hdr, host) := vrayCfgRead host 0 device function 0x0C
      let headerType := ((hdr >>> 16) &&& 0xFF).toUInt8
      let (irq, host) := vrayCfgRead host 0 device function 0x3C
      let entry : VrayDevice :=
        { bus := 0
          device := device
          function := function
          vendorId := vendor
          deviceId := deviceId
          classCode := ((cls >>> 24) &&& 0xFF).toUInt8
          subclass := ((cls >>> 16) &&& 0xFF).toUInt8
          progIf := ((cls >>> 8) &&& 0xFF).toUInt8
          headerType := headerType
          irq := (irq &&& 0xFF).toUInt8
          name := getPciDeviceName db vendor deviceId }
      let devices := if s.devices.length < maxDevices then s.devices ++ [entry] else s.devices
      if function = 0 ∧ headerType &&& 0x80 = 0 then ⟨host, devices⟩
      else scanFunctions device functions ⟨host, devices⟩

def scanDevices : List UInt8 → Scan → Scan
  | [], s => s
  | device :: devices, s =>
    scanDevices devices (scanFunctions db device [0, 1, 2, 3, 4, 5, 6, 7] s)

def vrayInit (h : PciHost) : Scan :=
  scanDevices db ((List.range 32).map UInt8.ofNat) ⟨h, []⟩

/-! ## Searches -/

/-- The loops of the searches: the index of the first entry, or -1. -/
def findFirst (p : VrayDevice → Bool) : List VrayDevice → (i : ℕ) → ℤ
  | [], _ => -1
  | d :: ds, i => if p d then i else findFirst p ds (i + 1)

def vrayFindFirstByVendor (ds : List VrayDevice) (vendorId deviceId : UInt16) : ℤ :=
  findFirst (fun d => d.vendorId = vendorId && d.deviceId = deviceId) ds 0

def vrayFindFirstByClass (ds : List VrayDevice) (classCode subclass : UInt8) : ℤ :=
  findFirst (fun d => d.classCode = classCode && d.subclass = subclass) ds 0

def vrayFindFirstByClassProgIf (ds : List VrayDevice) (classCode subclass progIf : UInt8) : ℤ :=
  findFirst (fun d => d.classCode = classCode && d.subclass = subclass && d.progIf = progIf) ds 0

/-! ## What is on the bus -/

/-- Register `offset / 4` of a function on bus 0. -/
def config (space : Location → UInt32) (d : Fin 32) (f : Fin 8) (register : Fin 64) : UInt32 :=
  space ⟨0, d, f, register⟩

/-- A function that answers has a vendor. -/
def Responds (space : Location → UInt32) (d : Fin 32) (f : Fin 8) : Prop :=
  (config space d f 0 &&& 0xFFFF).toUInt16 ≠ 0xFFFF ∧ (config space d f 0 &&& 0xFFFF).toUInt16 ≠ 0

instance (space : Location → UInt32) (d : Fin 32) (f : Fin 8) : Decidable (Responds space d f) :=
  inferInstanceAs (Decidable (_ ∧ _))

/-- Bit 7 of the header type of function 0. -/
def MultiFunction (space : Location → UInt32) (d : Fin 32) : Prop :=
  ((config space d 0 3 >>> 16) &&& 0xFF).toUInt8 &&& 0x80 ≠ 0

instance (space : Location → UInt32) (d : Fin 32) : Decidable (MultiFunction space d) :=
  inferInstanceAs (Decidable (¬ _))

/-- A function that belongs to the machine: it answers, and so does function 0 of a device with
more than one. -/
def Present (space : Location → UInt32) (d : Fin 32) (f : Fin 8) : Prop :=
  Responds space d f ∧ (f = 0 ∨ Responds space d 0 ∧ MultiFunction space d)

instance (space : Location → UInt32) (d : Fin 32) (f : Fin 8) : Decidable (Present space d f) :=
  inferInstanceAs (Decidable (_ ∧ _))

/-- The entry that describes a function. -/
def describe (space : Location → UInt32) (d : Fin 32) (f : Fin 8) : VrayDevice where
  bus := 0
  device := UInt8.ofNat d
  function := UInt8.ofNat f
  vendorId := (config space d f 0 &&& 0xFFFF).toUInt16
  deviceId := ((config space d f 0 >>> 16) &&& 0xFFFF).toUInt16
  classCode := ((config space d f 2 >>> 24) &&& 0xFF).toUInt8
  subclass := ((config space d f 2 >>> 16) &&& 0xFF).toUInt8
  progIf := ((config space d f 2 >>> 8) &&& 0xFF).toUInt8
  headerType := ((config space d f 3 >>> 16) &&& 0xFF).toUInt8
  irq := (config space d f 15 &&& 0xFF).toUInt8
  name := getPciDeviceName db (config space d f 0 &&& 0xFFFF).toUInt16
    ((config space d f 0 >>> 16) &&& 0xFFFF).toUInt16

/-- The functions of the machine in the order of their numbers. -/
def functions (space : Location → UInt32) : List (Fin 32 × Fin 8) :=
  (List.finRange 32).flatMap fun d =>
    ((List.finRange 8).filter fun f => Present space d f).map fun f => (d, f)

/-- The entries that describe them. -/
def catalogue (space : Location → UInt32) : List VrayDevice :=
  (functions space).map fun p => describe db space p.1 p.2

/-! ## Addresses -/

section address

variable {h : PciHost} {bus device func offset : UInt8}

theorem toNat_offset_mask (offset : UInt8) :
    (offset &&& 0xFC).toNat = 4 * (offset.toNat / 4) := by
  revert offset
  decide +kernel

/-- The fields of an address lie next to each other. -/
theorem toNat_vrayBuildAddr (hd : device.toNat < 32) (hf : func.toNat < 8) :
    (vrayBuildAddr bus device func offset).toNat =
      2 ^ 31 * 1 + (2 ^ 16 * bus.toNat + (2 ^ 11 * device.toNat + (2 ^ 8 * func.toNat +
        4 * (offset.toNat / 4)))) := by
  have hbus := bus.toNat_lt
  have hoffset := offset.toNat_lt
  have hshift (x : UInt8) (k : UInt32) (n : ℕ) (hk : k.toNat = n) (hn : n < 32)
      (hx : x.toNat * 2 ^ n < 2 ^ 32) : (x.toUInt32 <<< k).toNat = 2 ^ n * x.toNat := by
    rw [UInt32.toNat_shiftLeft, UInt8.toNat_toUInt32, hk, Nat.mod_eq_of_lt hn,
      Nat.shiftLeft_eq, Nat.mod_eq_of_lt hx, Nat.mul_comm]
  have hone : ((1 : UInt32) <<< 31).toNat = 2 ^ 31 * 1 := rfl
  have hjoin (k : ℕ) {x y : ℕ} (hy : y < 2 ^ k) : 2 ^ k * x ||| y = 2 ^ k * x + y :=
    (Nat.two_pow_add_eq_or_of_lt hy x).symm
  rw [vrayBuildAddr, UInt32.toNat_or, UInt32.toNat_or, UInt32.toNat_or, UInt32.toNat_or, hone,
    hshift bus 16 16 rfl (by norm_num) (by omega), hshift device 11 11 rfl (by norm_num) (by omega),
    hshift func 8 8 rfl (by norm_num) (by omega), UInt8.toNat_toUInt32, toNat_offset_mask,
    Nat.or_assoc, Nat.or_assoc, Nat.or_assoc, hjoin 8 (by omega), hjoin 11 (by omega),
    hjoin 16 (by omega), hjoin 31 (by omega)]

theorem decode_vrayBuildAddr (hd : device.toNat < 32) (hf : func.toNat < 8) :
    decode (vrayBuildAddr bus device func offset) =
      ⟨Fin.ofNat 256 bus.toNat, Fin.ofNat 32 device.toNat, Fin.ofNat 8 func.toNat,
        Fin.ofNat 64 (offset.toNat / 4)⟩ := by
  have hbus := bus.toNat_lt
  have hoffset := offset.toNat_lt
  rw [decode, toNat_vrayBuildAddr hd hf]
  simp only [Location.mk.injEq, Fin.ext_iff, Fin.val_ofNat]
  omega

variable (bus offset) in
theorem enabled_vrayBuildAddr (hd : device.toNat < 32) (hf : func.toNat < 8)
    (h : PciHost) : PciHost.enabled { h with address := vrayBuildAddr bus device func offset } := by
  simp only [PciHost.enabled, toNat_vrayBuildAddr hd hf, decide_eq_true_eq]
  omega

/-- A read returns the register that is asked for. -/
theorem vrayCfgRead_fst (h : PciHost) (hd : device.toNat < 32) (hf : func.toNat < 8) :
    (vrayCfgRead h bus device func offset).1 =
      h.space ⟨Fin.ofNat 256 bus.toNat, Fin.ofNat 32 device.toNat, Fin.ofNat 8 func.toNat,
        Fin.ofNat 64 (offset.toNat / 4)⟩ := by
  have hne : confData ≠ confAddr := by decide
  have henabled := enabled_vrayBuildAddr bus offset hd hf h
  rw [← decode_vrayBuildAddr hd hf]
  simp [vrayCfgRead, PciHost.outl, PciHost.inl, hne, henabled]

@[simp] theorem vrayCfgRead_space (h : PciHost) (bus device func offset : UInt8) :
    (vrayCfgRead h bus device func offset).2.space = h.space := by
  simp [vrayCfgRead, PciHost.outl]

@[simp] theorem vrayCfgRead_react (h : PciHost) (bus device func offset : UInt8) :
    (vrayCfgRead h bus device func offset).2.react = h.react := by
  simp [vrayCfgRead, PciHost.outl]

/-- A write changes the register that is named and no other. -/
theorem vrayCfgWrite_space (h : PciHost) (hd : device.toNat < 32) (hf : func.toNat < 8)
    (value : UInt32) :
    (vrayCfgWrite h bus device func offset value).space =
      Function.update h.space
        ⟨Fin.ofNat 256 bus.toNat, Fin.ofNat 32 device.toNat, Fin.ofNat 8 func.toNat,
          Fin.ofNat 64 (offset.toNat / 4)⟩
        (h.react ⟨Fin.ofNat 256 bus.toNat, Fin.ofNat 32 device.toNat, Fin.ofNat 8 func.toNat,
          Fin.ofNat 64 (offset.toNat / 4)⟩ (h.space ⟨Fin.ofNat 256 bus.toNat,
            Fin.ofNat 32 device.toNat, Fin.ofNat 8 func.toNat, Fin.ofNat 64 (offset.toNat / 4)⟩)
          value) := by
  have hne : confData ≠ confAddr := by decide
  have henabled := enabled_vrayBuildAddr bus offset hd hf h
  rw [← decode_vrayBuildAddr hd hf]
  simp [vrayCfgWrite, PciHost.outl, hne, henabled]

end address

/-! ## The scan finds what is on the bus -/

section scan

variable {db : List PciDeviceEntry} {s : Scan} {d : Fin 32} {f : Fin 8} {fs : List (Fin 8)}

theorem toNat_ofNat_fin {n : ℕ} (i : Fin n) (hn : n ≤ 256) : (UInt8.ofNat i).toNat = i := by
  have := i.isLt
  rw [UInt8.toNat_ofNat', Nat.mod_eq_of_lt (by omega)]

theorem ofNat_val {n : ℕ} [NeZero n] (i : Fin n) : Fin.ofNat n i = i := by
  apply Fin.ext
  simp

/-- A read of the scan is a register of bus 0. -/
theorem vrayCfgRead_config (h : PciHost) (d : Fin 32) (f : Fin 8) (offset : UInt8) :
    (vrayCfgRead h 0 (UInt8.ofNat d) (UInt8.ofNat f) offset).1 =
      config h.space d f (Fin.ofNat 64 (offset.toNat / 4)) := by
  have hd := toNat_ofNat_fin d (by norm_num)
  have hf := toNat_ofNat_fin f (by norm_num)
  rw [vrayCfgRead_fst h (by omega) (by omega), hd, hf, ofNat_val, ofNat_val]
  rfl

/-- A write on bus 0. -/
theorem vrayCfgWrite_config (h : PciHost) (d : Fin 32) (f : Fin 8) (offset : UInt8)
    (value : UInt32) :
    (vrayCfgWrite h 0 (UInt8.ofNat d) (UInt8.ofNat f) offset value).space =
      Function.update h.space ⟨0, d, f, Fin.ofNat 64 (offset.toNat / 4)⟩
        (h.react ⟨0, d, f, Fin.ofNat 64 (offset.toNat / 4)⟩
          (config h.space d f (Fin.ofNat 64 (offset.toNat / 4))) value) := by
  have hd := toNat_ofNat_fin d (by norm_num)
  have hf := toNat_ofNat_fin f (by norm_num)
  rw [vrayCfgWrite_space h (by omega) (by omega), hd, hf, ofNat_val, ofNat_val]
  rfl

theorem ofNat_eq_zero_iff (f : Fin 8) : UInt8.ofNat f = 0 ↔ f = 0 := by
  revert f
  decide

theorem register_zero : Fin.ofNat 64 ((0 : UInt8).toNat / 4) = 0 := rfl

theorem register_command : Fin.ofNat 64 ((0x04 : UInt8).toNat / 4) = 1 := rfl

theorem register_bar0 : Fin.ofNat 64 ((0x10 : UInt8).toNat / 4) = 4 := rfl

theorem register_bar1 : Fin.ofNat 64 ((0x14 : UInt8).toNat / 4) = 5 := rfl

theorem register_class : Fin.ofNat 64 ((8 : UInt8).toNat / 4) = 2 := rfl

theorem register_header : Fin.ofNat 64 ((0x0C : UInt8).toNat / 4) = 3 := rfl

theorem register_irq : Fin.ofNat 64 ((0x3C : UInt8).toNat / 4) = 15 := rfl

/-- Two hosts that differ in the address register at most. -/
def SameSpace (h h' : PciHost) : Prop := h'.space = h.space ∧ h'.react = h.react

/-- The table after one more function. -/
def Scan.add (s : Scan) (d : VrayDevice) : List VrayDevice :=
  if s.devices.length < maxDevices then s.devices ++ [d] else s.devices

/-- One round of the loop over the functions. -/
theorem scanFunctions_cons (db : List PciDeviceEntry) (s : Scan) (d : Fin 32) (f : Fin 8)
    (rest : List UInt8) :
    ∃ host, SameSpace s.host host ∧
      scanFunctions db (UInt8.ofNat d) (UInt8.ofNat f :: rest) s =
        if ¬ Responds s.host.space d f then
          if f = 0 then ⟨host, s.devices⟩
          else scanFunctions db (UInt8.ofNat d) rest ⟨host, s.devices⟩
        else if f = 0 ∧ ¬ MultiFunction s.host.space d then
          ⟨host, s.add (describe db s.host.space d f)⟩
        else scanFunctions db (UInt8.ofNat d) rest
          ⟨host, s.add (describe db s.host.space d f)⟩ := by
  by_cases hresponds : Responds s.host.space d f
  · refine ⟨(vrayCfgRead (vrayCfgRead (vrayCfgRead (vrayCfgRead s.host 0 (UInt8.ofNat d)
      (UInt8.ofNat f) 0).2 0 (UInt8.ofNat d) (UInt8.ofNat f) 8).2 0 (UInt8.ofNat d) (UInt8.ofNat f)
        0x0C).2 0 (UInt8.ofNat d) (UInt8.ofNat f) 0x3C).2, by simp [SameSpace], ?_⟩
    have hvendor := not_or.mpr hresponds
    rw [if_neg (not_not.mpr hresponds), scanFunctions]
    simp only [vrayCfgRead_config, vrayCfgRead_space, ofNat_eq_zero_iff, register_zero,
      register_class, register_header, register_irq]
    rw [if_neg hvendor]
    by_cases hf : f = 0
    · subst hf
      simp only [true_and, MultiFunction, not_not]
      rfl
    · simp only [hf, false_and, if_false]
      rfl
  · refine ⟨(vrayCfgRead s.host 0 (UInt8.ofNat d) (UInt8.ofNat f) 0).2, by simp [SameSpace], ?_⟩
    have hvendor : (config s.host.space d f 0 &&& 0xFFFF).toUInt16 = 0xFFFF ∨
        (config s.host.space d f 0 &&& 0xFFFF).toUInt16 = 0 := by
      unfold Responds at hresponds
      tauto
    rw [if_pos hresponds, scanFunctions]
    simp only [vrayCfgRead_config, ofNat_eq_zero_iff, register_zero]
    exact if_pos hvendor

/-- The loop from function 1 on. -/
theorem scanFunctions_later (db : List PciDeviceEntry) (d : Fin 32) (hfs : ∀ f ∈ fs, f ≠ 0)
    (hroom : s.devices.length + fs.length ≤ maxDevices) :
    SameSpace s.host
        (scanFunctions db (UInt8.ofNat d) (fs.map fun f : Fin 8 => UInt8.ofNat f.val) s).host ∧
      (scanFunctions db (UInt8.ofNat d) (fs.map fun f : Fin 8 => UInt8.ofNat f.val) s).devices =
        s.devices ++
        (fs.filter fun f => Responds s.host.space d f).map (describe db s.host.space d) := by
  induction fs generalizing s with
  | nil => simp [scanFunctions, SameSpace]
  | cons f fs ih =>
    obtain ⟨hf, hfs⟩ := List.forall_mem_cons.mp hfs
    obtain ⟨host, ⟨hspace, hreact⟩, hstep⟩ :=
      scanFunctions_cons db s d f (fs.map fun f : Fin 8 => UInt8.ofNat f.val)
    rw [List.length_cons] at hroom
    rw [List.map_cons, hstep]
    by_cases hresponds : Responds s.host.space d f
    · have hlt : s.devices.length < maxDevices := by omega
      rw [if_neg (not_not.mpr hresponds), if_neg (fun h => hf h.1), Scan.add, if_pos hlt]
      obtain ⟨⟨hspace', hreact'⟩, hdevices⟩ := ih
        (s := ⟨host, s.devices ++ [describe db s.host.space d f]⟩) hfs (by simp; omega)
      refine ⟨⟨hspace'.trans hspace, hreact'.trans hreact⟩, ?_⟩
      rw [hdevices]
      simp [hspace, hresponds]
    · rw [if_pos hresponds, if_neg hf]
      obtain ⟨⟨hspace', hreact'⟩, hdevices⟩ := ih (s := ⟨host, s.devices⟩) hfs (by
        dsimp only
        omega)
      refine ⟨⟨hspace'.trans hspace, hreact'.trans hreact⟩, ?_⟩
      rw [hdevices]
      simp [hspace, hresponds]

/-- The functions of one device. -/
theorem scanFunctions_device (db : List PciDeviceEntry) (d : Fin 32)
    (hroom : s.devices.length + 8 ≤ maxDevices) :
    SameSpace s.host (scanFunctions db (UInt8.ofNat d) [0, 1, 2, 3, 4, 5, 6, 7] s).host ∧
      (scanFunctions db (UInt8.ofNat d) [0, 1, 2, 3, 4, 5, 6, 7] s).devices = s.devices ++
        ((List.finRange 8).filter fun f => Present s.host.space d f).map
          (describe db s.host.space d) := by
  have hlater : ∀ f ∈ (List.finRange 7).map Fin.succ, f ≠ 0 := by
    intro f hf
    obtain ⟨i, -, rfl⟩ := List.mem_map.mp hf
    exact Fin.succ_ne_zero i
  have hall : ([0, 1, 2, 3, 4, 5, 6, 7] : List UInt8) =
      UInt8.ofNat (0 : Fin 8) ::
        ((List.finRange 7).map Fin.succ).map fun f : Fin 8 => UInt8.ofNat f.val := by
    decide
  obtain ⟨host, ⟨hspace, hreact⟩, hstep⟩ := scanFunctions_cons db s d 0
    (((List.finRange 7).map Fin.succ).map fun f : Fin 8 => UInt8.ofNat f.val)
  have height : List.finRange 8 = 0 :: (List.finRange 7).map Fin.succ := List.finRange_succ
  rw [hall, hstep, height]
  by_cases hresponds : Responds s.host.space d 0
  · have hlt : s.devices.length < maxDevices := by omega
    have hzero : Present s.host.space d 0 := ⟨hresponds, Or.inl rfl⟩
    rw [if_neg (not_not.mpr hresponds), Scan.add, if_pos hlt,
      List.filter_cons_of_pos (by simpa using hzero)]
    by_cases hmulti : MultiFunction s.host.space d
    · -- the other functions are asked as well
      have hpresent : ((List.finRange 7).map Fin.succ).filter (fun f => Present s.host.space d f) =
          ((List.finRange 7).map Fin.succ).filter fun f => Responds s.host.space d f := by
        apply List.filter_congr
        intro f hf
        simp [Present, hlater f hf, hresponds, hmulti]
      rw [if_neg (fun h => h.2 hmulti), hpresent]
      obtain ⟨⟨hspace', hreact'⟩, hdevices⟩ := scanFunctions_later
        (s := ⟨host, s.devices ++ [describe db s.host.space d 0]⟩) db d hlater (by simp; omega)
      refine ⟨⟨hspace'.trans hspace, hreact'.trans hreact⟩, ?_⟩
      rw [hdevices]
      simp [hspace]
    · have hnone : ((List.finRange 7).map Fin.succ).filter (fun f => Present s.host.space d f) =
          [] := by
        apply List.filter_eq_nil_iff.mpr
        intro f hf
        simp [Present, hlater f hf, hmulti]
      rw [if_pos ⟨rfl, hmulti⟩, hnone]
      exact ⟨⟨hspace, hreact⟩, rfl⟩
  · have hzero : ¬ Present s.host.space d 0 := fun h => hresponds h.1
    have hnone : ((List.finRange 7).map Fin.succ).filter (fun f => Present s.host.space d f) =
        [] := by
      apply List.filter_eq_nil_iff.mpr
      intro f hf
      simp [Present, hlater f hf, hresponds]
    rw [if_pos hresponds, if_pos rfl, List.filter_cons_of_neg (by simpa using hzero), hnone]
    exact ⟨⟨hspace, hreact⟩, (List.append_nil _).symm⟩

theorem scanDevices_spec (db : List PciDeviceEntry) (ds : List (Fin 32))
    (hroom : s.devices.length + 8 * ds.length ≤ maxDevices) :
    SameSpace s.host (scanDevices db (ds.map fun d : Fin 32 => UInt8.ofNat d.val) s).host ∧
      (scanDevices db (ds.map fun d : Fin 32 => UInt8.ofNat d.val) s).devices =
        s.devices ++ ds.flatMap fun d =>
          ((List.finRange 8).filter fun f => Present s.host.space d f).map
            (describe db s.host.space d) := by
  induction ds generalizing s with
  | nil => simp [scanDevices, SameSpace]
  | cons d ds ih =>
    rw [List.length_cons] at hroom
    obtain ⟨⟨hspace, hreact⟩, hdevices⟩ := scanFunctions_device (s := s) db d (by omega)
    have hlen := List.length_filter_le (fun f => decide (Present s.host.space d f))
      (List.finRange 8)
    obtain ⟨⟨hspace', hreact'⟩, hdevices'⟩ := ih
      (s := scanFunctions db (UInt8.ofNat d) [0, 1, 2, 3, 4, 5, 6, 7] s) (by
        rw [hdevices, List.length_append, List.length_map]
        rw [List.length_finRange] at hlen
        omega)
    rw [List.map_cons, scanDevices]
    refine ⟨⟨hspace'.trans hspace, hreact'.trans hreact⟩, ?_⟩
    rw [hdevices', hspace, hdevices, List.flatMap_cons, List.append_assoc]

theorem length_functions (space : Location → UInt32) : (functions space).length ≤ maxDevices := by
  have hlen (d : Fin 32) : (((List.finRange 8).filter fun f => Present space d f).map
      fun f => (d, f)).length ≤ 8 := by
    rw [List.length_map]
    exact (List.length_filter_le ..).trans (List.length_finRange ..).le
  rw [functions, List.length_flatMap]
  calc ((List.finRange 32).map fun d => _).sum
      ≤ ((List.finRange 32).map fun _ => 8).sum := List.sum_le_sum fun d _ => hlen d
    _ = maxDevices := rfl

theorem vrayInit_spec (db : List PciDeviceEntry) (h : PciHost) :
    (vrayInit db h).devices = catalogue db h.space ∧ SameSpace h (vrayInit db h).host := by
  have hall : (List.range 32).map UInt8.ofNat =
      (List.finRange 32).map fun d : Fin 32 => UInt8.ofNat d.val := by decide
  obtain ⟨hsame, hdevices⟩ := scanDevices_spec (s := ⟨h, []⟩) db (List.finRange 32) (by
    simp [maxDevices])
  rw [vrayInit, hall]
  refine ⟨?_, hsame⟩
  rw [hdevices, catalogue, functions, List.map_flatMap]
  simp [Function.comp_def]

end scan

/-! ## The drivers -/

/-- The first part of `xhci_init`: the controller may access memory and be a bus master, and the
result is the address in its BAR0.  There is none without a controller, and none when BAR0 is an
I/O BAR. -/
def xhciAttach (s : Scan) : Option UInt64 × PciHost :=
  match vrayFindFirstByClassProgIf s.devices 0x0C 0x03 0x30 with
  | .ofNat i =>
    match s.devices[i]? with
    | none => (none, s.host)
    | some c =>
      let (cmd, h) := vrayCfgRead s.host c.bus c.device c.function 0x04
      let h := vrayCfgWrite h c.bus c.device c.function 0x04 
        (cmd ||| ((1 : UInt32) <<< 2 ||| (1 : UInt32) <<< 1))
      let (bar0, h) := vrayCfgRead h c.bus c.device c.function 0x10
      if bar0 &&& 0x6 = 0x4 then
        let (bar1, h) := vrayCfgRead h c.bus c.device c.function 0x14
        (some (bar1.toUInt64 <<< 32 ||| (bar0 &&& 0xFFFFFFF0).toUInt64), h)
      else if bar0 &&& 0x1 = 0 then (some (bar0 &&& 0xFFFFFFF0).toUInt64, h)
      else (none, h)
  | .negSucc _ => (none, s.host)

/-- The first function of the machine with the given class. -/
def controller (space : Location → UInt32) (p : VrayDevice → Bool) : Option (Fin 32 × Fin 8) :=
  (functions space).find? fun q => p (describe db space q.1 q.2)

theorem findFirst_eq (p : VrayDevice → Bool) (ds : List VrayDevice) (i : ℕ) :
    findFirst p ds i =
      match ds.findIdx? p with
      | none => -1
      | some j => (i + j : ℕ) := by
  induction ds generalizing i with
  | nil => rfl
  | cons d ds ih =>
    rw [findFirst, List.findIdx?_cons]
    by_cases hp : p d
    · simp [hp]
    · rw [if_neg hp, if_neg hp, ih]
      cases ds.findIdx? p with
      | none => rfl
      | some j => simp [Nat.add_comm, Nat.add_left_comm]

/-- The search that fills a driver's `device_index`, and the entry it reads there. -/
theorem findFirst_catalogue (db : List PciDeviceEntry) (space : Location → UInt32)
    (p : VrayDevice → Bool) :
    match controller db space p with
    | none => findFirst p (catalogue db space) 0 = -1
    | some q => ∃ i : ℕ, findFirst p (catalogue db space) 0 = i ∧
        (catalogue db space)[i]? = some (describe db space q.1 q.2) := by
  cases hcontroller : controller db space p with
  | none =>
    have hnone : (catalogue db space).findIdx? p = none := by
      rw [List.findIdx?_eq_none_iff]
      intro e he
      obtain ⟨q, hq, rfl⟩ := List.mem_map.mp he
      simpa using List.find?_eq_none.mp hcontroller q hq
    rw [findFirst_eq, hnone]
  | some q =>
    have hfind : (catalogue db space).find? p = some (describe db space q.1 q.2) := by
      rw [catalogue, List.find?_map]
      exact congrArg (Option.map _) hcontroller
    have hsome : ((catalogue db space).findIdx? p).isSome := by
      rw [List.findIdx?_isSome, List.any_eq_true]
      exact ⟨_, List.mem_of_find?_eq_some hfind, List.find?_some hfind⟩
    obtain ⟨i, hi⟩ := Option.isSome_iff_exists.mp hsome
    refine ⟨i, by rw [findFirst_eq, hi]; simp, ?_⟩
    rw [← hfind, List.find?_eq_bind_findIdx?_getElem?, hi]
    rfl

/-- What the two registers of a BAR say: where its memory is. -/
def barBase (bar0 bar1 : UInt32) : Option ℕ :=
  if bar0.toNat / 2 % 4 = 2 then some (2 ^ 32 * bar1.toNat + 16 * (bar0.toNat / 16))
  else if bar0.toNat % 2 = 0 then some (16 * (bar0.toNat / 16))
  else none

theorem toNat_and_high (x : UInt32) : (x &&& 0xFFFFFFF0).toNat = 16 * (x.toNat / 16) := by
  have hmask : (0xFFFFFFF0 : UInt32).toNat = 2 ^ 4 * (2 ^ 28 - 1) := rfl
  have hx : x.toNat < 2 ^ 32 := x.toNat_lt
  rw [UInt32.toNat_and, hmask]
  apply Nat.eq_of_testBit_eq
  intro i
  rw [Nat.testBit_and, Nat.testBit_two_pow_mul, Nat.testBit_two_pow_sub_one,
    show 16 * (x.toNat / 16) = 2 ^ 4 * (x.toNat / 2 ^ 4) from rfl, Nat.testBit_two_pow_mul,
    Nat.testBit_div_two_pow]
  by_cases hlow : 4 ≤ i
  · by_cases hhigh : i < 32
    · simp [hlow, show i - 4 < 28 by omega, show i - 4 + 4 = i by omega]
    · have hbit : x.toNat.testBit i = false :=
        Nat.testBit_lt_two_pow (hx.trans_le (Nat.pow_le_pow_right (by norm_num) (by omega)))
      simp [hbit, show i - 4 + 4 = i by omega]
  · simp [hlow]

theorem and_six_eq_four (x : UInt32) : x &&& 0x6 = 0x4 ↔ x.toNat / 2 % 4 = 2 := by
  have hmod : x.toNat &&& 6 = x.toNat % 2 ^ 3 &&& 6 := by
    rw [← Nat.and_two_pow_sub_one_eq_mod, Nat.and_assoc]
    rfl
  rw [← UInt32.toNat_inj, UInt32.toNat_and, show (0x6 : UInt32).toNat = 6 from rfl,
    show (0x4 : UInt32).toNat = 4 from rfl, hmod]
  have hlt : x.toNat % 2 ^ 3 < 8 := Nat.mod_lt _ (by norm_num)
  have hdiv : x.toNat / 2 % 4 = x.toNat % 2 ^ 3 / 2 := by omega
  rw [hdiv]
  generalize x.toNat % 2 ^ 3 = r at hlt
  interval_cases r <;> decide

theorem and_one_eq_zero (x : UInt32) : x &&& 0x1 = 0 ↔ x.toNat % 2 = 0 := by
  rw [← UInt32.toNat_inj, UInt32.toNat_and, show (0x1 : UInt32).toNat = 1 from rfl,
    Nat.and_one_is_mod]
  rfl

/-- Two halves of a 64-bit address. -/
theorem toNat_join (high low : UInt32) :
    (high.toUInt64 <<< 32 ||| low.toUInt64).toNat = 2 ^ 32 * high.toNat + low.toNat := by
  have hhigh := high.toNat_lt
  have hlow := low.toNat_lt
  rw [UInt64.toNat_or, UInt64.toNat_shiftLeft, UInt32.toNat_toUInt64, UInt32.toNat_toUInt64,
    show ((32 : UInt64).toNat % 64) = 32 from rfl, Nat.shiftLeft_eq,
    Nat.mod_eq_of_lt (by omega), Nat.mul_comm, ← Nat.two_pow_add_eq_or_of_lt hlow]

/-- The driver takes the first xHCI controller of the bus.  Of all registers only the controller's
command register has been written, with its value and the two enable bits, and the address is the
one in the BARs. -/
theorem xhciAttach_controller (db : List PciDeviceEntry) (h : PciHost) :
    match controller db h.space (fun c => c.classCode = 0x0C && c.subclass = 0x03 &&
        c.progIf = 0x30) with
    | none => (xhciAttach (vrayInit db h)).1 = none ∧
        SameSpace h (xhciAttach (vrayInit db h)).2
    | some (d, f) =>
      (xhciAttach (vrayInit db h)).1.map UInt64.toNat =
          barBase (config h.space d f 4) (config h.space d f 5) ∧
        (xhciAttach (vrayInit db h)).2.space = Function.update h.space ⟨0, d, f, 1⟩
          (h.react ⟨0, d, f, 1⟩ (config h.space d f 1) (config h.space d f 1 ||| 6)) := by
  obtain ⟨hdevices, hspace, hreact⟩ := vrayInit_spec db h
  have hfirst := findFirst_catalogue db h.space (fun c => c.classCode = 0x0C && c.subclass = 0x03 &&
    c.progIf = 0x30)
  cases hcontroller : controller db h.space (fun c => c.classCode = 0x0C && c.subclass = 0x03 &&
    c.progIf = 0x30) with
  | none =>
    rw [hcontroller] at hfirst
    have hattach : xhciAttach (vrayInit db h) = (none, (vrayInit db h).host) := by
      rw [xhciAttach, vrayFindFirstByClassProgIf, hdevices, hfirst]
      rfl
    rw [hattach]
    exact ⟨rfl, hspace, hreact⟩
  | some q =>
    obtain ⟨d, f⟩ := q
    rw [hcontroller] at hfirst
    obtain ⟨i, hi, hentry⟩ := hfirst
    -- the BARs are read after the command register has been written
    have hbar (r : Fin 64) (hr : r ≠ 1) (v : UInt32) :
        config (Function.update h.space ⟨0, d, f, 1⟩ v) d f r = config h.space d f r :=
      Function.update_of_ne (fun hloc => hr (congrArg Location.register hloc)) ..
    have hbar0 := hbar 4 (by decide)
    have hbar1 := hbar 5 (by decide)
    have henable : ((1 : UInt32) <<< 2 ||| (1 : UInt32) <<< 1) = 6 := rfl
    simp only [xhciAttach, vrayFindFirstByClassProgIf, hdevices, hi, hentry,
      describe, vrayCfgWrite_config, vrayCfgRead_config, vrayCfgRead_space, vrayCfgRead_react,
      register_command, register_bar0, register_bar1, hspace, hreact, hbar0, hbar1, henable,
      and_six_eq_four, and_one_eq_zero, barBase]
    split_ifs
    · refine ⟨?_, ?_⟩
      · rw [Option.map_some, toNat_join, toNat_and_high]
      · simp only [vrayCfgRead_space, vrayCfgRead_react, vrayCfgWrite_config, register_command,
          hspace, hreact]
    · refine ⟨?_, ?_⟩
      · rw [Option.map_some, UInt32.toNat_toUInt64, toNat_and_high]
      · simp only [vrayCfgRead_space, vrayCfgRead_react, vrayCfgWrite_config, register_command,
          hspace, hreact]
    · refine ⟨rfl, ?_⟩
      simp only [vrayCfgRead_space, vrayCfgRead_react, vrayCfgWrite_config, register_command,
        hspace, hreact]

/-! ## Nodes -/

/-- `device_type_t`. -/
inductive DeviceType where
  | generic
  | pci
  | usbRoot
  | acpi
  deriving DecidableEq

/-- `vnode_t`; `driverData` is an index of the table. -/
structure Vnode where
  name : String
  type : DeviceType
  driverData : ℕ
  deriving DecidableEq

def maxVnodes : ℕ := 256

/-- `vnode_create` on the nodes `vnode_pool[0]` to `vnode_pool[next_vnode_index - 1]`. -/
def vnodeCreate (pool : List Vnode) (type : DeviceType) (driverData : ℕ) :
    List Vnode × Option Vnode :=
  if maxVnodes ≤ pool.length then (pool, none)
  else (pool ++ [⟨"VNODE", type, driverData⟩], some ⟨"VNODE", type, driverData⟩)

/-- An AHCI or an xHCI controller. -/
def hasNode (dev : VrayDevice) : Bool :=
  (dev.classCode = 0x01 && dev.subclass = 0x06) ||
    (dev.classCode = 0x0C && dev.subclass = 0x03 && dev.progIf = 0x30)

/-- The loop of `vnode_populate_from_pci`, from entry `i` on. -/
def vnodePopulateFromPci : List VrayDevice → (i : ℕ) → List Vnode → List Vnode
  | [], _, pool => pool
  | dev :: devs, i, pool =>
    if hasNode dev then vnodePopulateFromPci devs (i + 1) (vnodeCreate pool .generic i).1
    else vnodePopulateFromPci devs (i + 1) pool

theorem vnodePopulateFromPci_eq (ds : List VrayDevice) (i : ℕ) (pool : List Vnode)
    (hroom : pool.length + ds.length ≤ maxVnodes) :
    vnodePopulateFromPci ds i pool =
      pool ++ ((ds.zipIdx i).filter fun p => hasNode p.1).map fun p =>
        ⟨"VNODE", .generic, p.2⟩ := by
  induction ds generalizing i pool with
  | nil => simp [vnodePopulateFromPci]
  | cons d ds ih =>
    rw [List.length_cons] at hroom
    rw [vnodePopulateFromPci, List.zipIdx_cons]
    by_cases hnode : hasNode d
    · rw [if_pos hnode, vnodeCreate, if_neg (by omega), ih (i + 1) _ (by simp; omega)]
      simp [hnode]
    · rw [if_neg hnode, ih (i + 1) pool (by omega)]
      simp [hnode]

/-- The entries that a list of positions names. -/
theorem map_getElem_zipIdx (ds : List VrayDevice) (p : VrayDevice → Bool) :
    ((ds.zipIdx 0).filter fun q => p q.1).map (fun q => ds[q.2]?) = (ds.filter p).map some := by
  have hget : ∀ q ∈ (ds.zipIdx 0).filter fun q => p q.1, ds[q.2]? = some q.1 := by
    intro q hq
    exact List.mem_zipIdx_iff_getElem?.mp (List.mem_of_mem_filter hq)
  have hfst : ((ds.zipIdx 0).filter fun q => p q.1).map Prod.fst = ds.filter p := by
    have hmap := List.filter_map (f := Prod.fst) (p := p) (l := ds.zipIdx 0)
    rw [List.zipIdx_map_fst] at hmap
    exact hmap.symm
  rw [List.map_congr_left hget, ← hfst, List.map_map]
  rfl

theorem nodup_functions (space : Location → UInt32) : (functions space).Nodup := by
  rw [functions, List.nodup_flatMap]
  refine ⟨fun d _ => ?_, ?_⟩
  · apply List.Nodup.map (fun f f' h => congrArg Prod.snd h)
    exact (List.nodup_finRange 8).filter _
  · apply (List.nodup_finRange 32).imp
    intro d d' hne p hp hp'
    obtain ⟨f, -, rfl⟩ := List.mem_map.mp hp
    obtain ⟨f', -, hf'⟩ := List.mem_map.mp hp'
    exact hne (congrArg Prod.fst hf').symm

/-- The scan fills the table with the functions on the bus, each once and in the order of their
numbers; there is room for all of them, and no register is written.  Then every controller, and
nothing else, has a node. -/
theorem vrayInit_enumerates (db : List PciDeviceEntry) (h : PciHost) :
    (vrayInit db h).devices = catalogue db h.space ∧ (functions h.space).Nodup ∧
      (functions h.space).length ≤ maxDevices ∧ SameSpace h (vrayInit db h).host ∧
      (vnodePopulateFromPci (vrayInit db h).devices 0 []).map
          (fun n => (vrayInit db h).devices[n.driverData]?) =
        ((catalogue db h.space).filter hasNode).map some := by
  obtain ⟨hdevices, hsame⟩ := vrayInit_spec db h
  have hlen := length_functions h.space
  refine ⟨hdevices, nodup_functions h.space, hlen, hsame, ?_⟩
  have hroom : ([] : List Vnode).length + (catalogue db h.space).length ≤ maxVnodes := by
    simpa [catalogue, maxVnodes, maxDevices] using hlen
  rw [hdevices, vnodePopulateFromPci_eq _ 0 [] hroom, List.nil_append, List.map_map]
  exact map_getElem_zipIdx (catalogue db h.space) hasNode

end Rhoudveine.Vray
