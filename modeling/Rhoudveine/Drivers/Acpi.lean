import Rhoudveine.Lib.LittleEndian

/-!
# The MADT

`acpi_parse_madt`, which counts the processors of the machine.
-/

namespace Rhoudveine.Acpi
open LittleEndian

/-! ## The code -/

def madtTypeLocalApic : UInt8 := 0
def madtTypeIoApic : UInt8 := 1
def madtTypeInterruptOverride : UInt8 := 2

/-- The size of the structure that an entry is cast to. -/
def structureLength (type : UInt8) : ℕ :=
  if type = madtTypeLocalApic then 8
  else if type = madtTypeIoApic then 12
  else if type = madtTypeInterruptOverride then 10
  else 2

/-- `sizeof(struct madt)`: where the entries begin. -/
def madtEntriesOffset : ℕ := 44

/-- The variables that `acpi_parse_madt` sets. -/
structure Acpi where
  localApicAddr : UInt32
  cpuCount : Int32
  /-- `acpi_cpu_count` and `acpi_cpu_apic_ids`, exported for the scheduler. -/
  acpiCpuCount : Int32
  acpiCpuApicIds : ℕ → UInt32

def Acpi.boot : Acpi := ⟨0, 0, 0, fun _ => 0⟩

/-- `cpu_count` and `acpi_cpu_apic_ids` in the loop. -/
structure Cpus where
  count : ℕ
  apicIds : ℕ → UInt32

def Cpus.add (c : Cpus) (apicId : UInt8) : Cpus where
  count := c.count + 1
  apicIds := if c.count < 64 then Function.update c.apicIds c.count apicId.toUInt32 else c.apicIds

/-- One round of the loop over the entries. -/
def parseEntry (mem : ℕ → UInt8) (ptr : ℕ) (c : Cpus) : Cpus :=
  if mem ptr = madtTypeLocalApic ∧ le mem (ptr + 4) 4 &&& 1 ≠ 0 then c.add (mem (ptr + 3)) else c

/-- The loop, `none` if it takes more than `rounds` rounds. -/
def parseEntries (mem : ℕ → UInt8) (stop : ℕ) : (rounds : ℕ) → (ptr : ℕ) → Cpus → Option Cpus
  | 0, _, _ => none
  | rounds + 1, ptr, c =>
    if ptr < stop then
      parseEntries mem stop rounds (ptr + (mem (ptr + 1)).toNat) (parseEntry mem ptr c)
    else some c

/-- `madt` is the address that `acpi_get_madt` returns, if it finds the table. -/
def acpiParseMadt (rounds : ℕ) (mem : ℕ → UInt8) (madt : Option ℕ) (a : Acpi) : Option Acpi :=
  match madt with
  | none => some a
  | some madt =>
    (parseEntries mem (madt + le mem (madt + 4) 4) rounds (madt + madtEntriesOffset)
      ⟨0, a.acpiCpuApicIds⟩).map fun c =>
        { localApicAddr := UInt32.ofNat (le mem (madt + 36) 4)
          cpuCount := Int32.ofNat c.count
          acpiCpuCount := Int32.ofNat c.count
          acpiCpuApicIds := c.apicIds }

/-! ## Tables -/

/-- An entry of the table: its type and what follows its length. -/
structure Entry where
  type : UInt8
  body : List UInt8
  deriving DecidableEq, Repr

namespace Entry

def length (e : Entry) : ℕ := e.body.length + 2

def encode (e : Entry) : List UInt8 := e.type :: UInt8.ofNat e.length :: e.body

/-- The length fits into its byte, and an entry for a local APIC has that of its structure. -/
structure WellFormed (e : Entry) : Prop where
  length_lt : e.length < 256
  localApic : e.type = madtTypeLocalApic → e.length = 8

/-- The length fits into its byte, and the entry has room for its structure. -/
structure Covers (e : Entry) : Prop where
  length_lt : e.length < 256
  le_length : structureLength e.type ≤ e.length

/-- What the count needs of an entry. -/
structure Legible (e : Entry) : Prop where
  length_lt : e.length < 256
  localApic : e.type = madtTypeLocalApic → 8 ≤ e.length

theorem WellFormed.legible {e : Entry} (h : e.WellFormed) : e.Legible :=
  ⟨h.length_lt, fun htype => (h.localApic htype).ge⟩

theorem Covers.legible {e : Entry} (h : e.Covers) : e.Legible :=
  ⟨h.length_lt, fun htype => by simpa [structureLength, htype] using h.le_length⟩

def flags (e : Entry) : ℕ := le (fun i => e.body.getD i 0) 2 4

/-- The APIC id of an enabled local APIC. -/
def enabled (e : Entry) : Option UInt8 :=
  if e.type = madtTypeLocalApic ∧ e.flags &&& 1 ≠ 0 then some (e.body.getD 1 0) else none

end Entry

def encodeAll (entries : List Entry) : List UInt8 := entries.flatMap Entry.encode

/-- The APIC ids of the enabled local APICs, in the order of the table. -/
def enabledIds (entries : List Entry) : List UInt8 := entries.filterMap Entry.enabled

/-- The bytes are in memory from `a` on. -/
def HoldsAt (mem : ℕ → UInt8) (a : ℕ) (bytes : List UInt8) : Prop :=
  ∀ i b, bytes[i]? = some b → mem (a + i) = b

/-- A MADT with these entries is at `madt`. -/
structure IsMadt (mem : ℕ → UInt8) (madt : ℕ) (entries : List Entry) : Prop where
  length : le mem (madt + 4) 4 = madtEntriesOffset + (encodeAll entries).length
  bytes : HoldsAt mem (madt + madtEntriesOffset) (encodeAll entries)
  wellFormed : ∀ e ∈ entries, e.WellFormed

/-- The MADT at `madt` is filled by these entries. -/
structure IsFilled (mem : ℕ → UInt8) (madt : ℕ) (entries : List Entry) : Prop where
  length : le mem (madt + 4) 4 = madtEntriesOffset + (encodeAll entries).length
  bytes : HoldsAt mem (madt + madtEntriesOffset) (encodeAll entries)
  covers : ∀ e ∈ entries, e.Covers

/-- A table with these entries; only its signature and length are filled in. -/
def madtBytes (entries : List Entry) : List UInt8 :=
  [65, 80, 73, 67] ++
    (List.range 4).map (leByte (madtEntriesOffset + (encodeAll entries).length)) ++
    List.replicate 36 0 ++ encodeAll entries

/-! ## The loop -/

variable {mem : ℕ → UInt8} {a ptr stop rounds madt : ℕ} {e : Entry} {entries : List Entry}
  {bytes bytes' : List UInt8} {c : Cpus}

theorem HoldsAt.left (h : HoldsAt mem a (bytes ++ bytes')) : HoldsAt mem a bytes := by
  intro i b hb
  apply h i b
  rw [List.getElem?_append_left (List.getElem?_eq_some_iff.mp hb).1]
  exact hb

theorem HoldsAt.right (h : HoldsAt mem a (bytes ++ bytes')) :
    HoldsAt mem (a + bytes.length) bytes' := by
  intro i b hb
  have hget := h (bytes.length + i) b
  rw [List.getElem?_append_right (Nat.le_add_right _ i), Nat.add_sub_cancel_left] at hget
  rw [Nat.add_assoc]
  exact hget hb

theorem holdsAt_getD (bytes : List UInt8) : HoldsAt (fun i => bytes.getD i 0) 0 bytes := by
  intro i b hb
  dsimp only
  rw [Nat.zero_add, List.getD_eq_getElem?_getD, hb]
  rfl

theorem isMadt_madtBytes (hentries : ∀ e ∈ entries, e.WellFormed)
    (hlength : madtEntriesOffset + (encodeAll entries).length < 2 ^ 32) :
    IsMadt (fun i => (madtBytes entries).getD i 0) 0 entries := by
  have hholds := holdsAt_getD (madtBytes entries)
  refine ⟨?_, hholds.right, hentries⟩
  have hbytes := le_leByte (b := fun i => (madtBytes entries).getD i 0) (i := 4) (n := 4)
    (v := madtEntriesOffset + (encodeAll entries).length) fun k hk => by
      interval_cases k <;> rfl
  rw [Nat.zero_add, hbytes]
  exact Nat.mod_eq_of_lt hlength

theorem Entry.length_encode (e : Entry) : e.encode.length = e.length := rfl

theorem HoldsAt.type (h : HoldsAt mem ptr e.encode) : mem ptr = e.type := h 0 e.type rfl

theorem HoldsAt.length (h : HoldsAt mem ptr e.encode) (he : e.Legible) :
    (mem (ptr + 1)).toNat = e.length := by
  have hlength : mem (ptr + 1) = UInt8.ofNat e.length := h 1 _ rfl
  rw [hlength, UInt8.toNat_ofNat', Nat.mod_eq_of_lt he.length_lt]

theorem HoldsAt.body (h : HoldsAt mem ptr e.encode) {i : ℕ} (hi : i < e.body.length) :
    mem (ptr + 2 + i) = e.body.getD i 0 := by
  have hget : e.encode[i + 2]? = some e.body[i] := List.getElem?_eq_getElem hi
  have hmem := h (i + 2) _ hget
  rw [Nat.add_comm i 2, ← Nat.add_assoc] at hmem
  rw [hmem, List.getD_eq_getElem _ _ hi]

/-- A round counts the entry if it is an enabled local APIC. -/
theorem parseEntry_eq (h : HoldsAt mem ptr e.encode) (he : e.Legible) (c : Cpus) :
    parseEntry mem ptr c = e.enabled.elim c c.add := by
  unfold parseEntry Entry.enabled
  rw [h.type]
  by_cases htype : e.type = madtTypeLocalApic
  · have hlength : 8 ≤ e.body.length + 2 := he.localApic htype
    have hflags : le mem (ptr + 4) 4 = e.flags := by
      apply le_congr
      intro k hk
      have hbyte := h.body (i := 2 + k) (by omega)
      rw [← Nat.add_assoc] at hbyte
      exact hbyte
    have hid : mem (ptr + 3) = e.body.getD 1 0 := h.body (i := 1) (by omega)
    rw [hflags, hid]
    split
    · rfl
    · rfl
  · rw [if_neg fun hand => htype hand.1, if_neg fun hand => htype hand.1]
    rfl

theorem foldl_enabled (e : Entry) (entries : List Entry) (c : Cpus) :
    (enabledIds (e :: entries)).foldl Cpus.add c =
      (enabledIds entries).foldl Cpus.add (e.enabled.elim c c.add) := by
  unfold enabledIds
  rw [List.filterMap_cons]
  cases e.enabled with
  | none => rfl
  | some id => rfl

/-- The loop over a whole table. -/
theorem parseEntries_eq (h : HoldsAt mem ptr (encodeAll entries))
    (hentries : ∀ e ∈ entries, e.Legible) (hstop : stop = ptr + (encodeAll entries).length)
    (hrounds : entries.length < rounds) (c : Cpus) :
    parseEntries mem stop rounds ptr c = some ((enabledIds entries).foldl Cpus.add c) := by
  induction entries generalizing ptr rounds c with
  | nil =>
    obtain ⟨rounds, rfl⟩ := Nat.exists_eq_succ_of_ne_zero (by omega : rounds ≠ 0)
    have hend : ¬ ptr < stop := by
      rw [hstop]
      exact lt_irrefl _
    rw [parseEntries, if_neg hend]
    rfl
  | cons e entries ih =>
    obtain ⟨rounds, rfl⟩ := Nat.exists_eq_succ_of_ne_zero (by omega : rounds ≠ 0)
    obtain ⟨he, hentries⟩ := List.forall_mem_cons.mp hentries
    have hsplit : encodeAll (e :: entries) = e.encode ++ encodeAll entries := List.flatMap_cons ..
    rw [hsplit] at h hstop
    rw [List.length_append, e.length_encode] at hstop
    have hmore : ptr < stop := by
      have hpos : 0 < e.length := Nat.succ_pos _
      omega
    have hrest := h.right
    rw [e.length_encode] at hrest
    rw [parseEntries, if_pos hmore, h.left.length he, parseEntry_eq h.left he,
      ih hrest hentries (by omega) (by rw [List.length_cons] at hrounds; omega), foldl_enabled]

/-! ## The processors -/

theorem foldl_add (ids : List UInt8) (c : Cpus) :
    (ids.foldl Cpus.add c).count = c.count + ids.length ∧
      ∀ i < 64, (ids.foldl Cpus.add c).apicIds i =
        if c.count ≤ i ∧ i < c.count + ids.length then (ids.getD (i - c.count) 0).toUInt32
        else c.apicIds i := by
  induction ids generalizing c with
  | nil =>
    refine ⟨rfl, fun i _ => ?_⟩
    rw [List.length_nil, if_neg (by omega)]
    rfl
  | cons id ids ih =>
    obtain ⟨hcount, hids⟩ := ih (c.add id)
    rw [List.foldl_cons]
    have hadd : (c.add id).count = c.count + 1 := rfl
    rw [hadd] at hcount hids
    refine ⟨by rw [hcount, List.length_cons]; omega, fun i hi => ?_⟩
    rw [hids i hi, List.length_cons]
    by_cases hfirst : i = c.count
    · rw [hfirst] at hi ⊢
      rw [if_neg (by omega), if_pos (by omega), Nat.sub_self, List.getD_cons_zero]
      unfold Cpus.add
      rw [if_pos hi]
      exact Function.update_self ..
    · by_cases hlater : c.count + 1 ≤ i ∧ i < c.count + 1 + ids.length
      · obtain ⟨k, hk⟩ : ∃ k, i - c.count = k + 1 := ⟨i - (c.count + 1), by omega⟩
        rw [if_pos hlater, if_pos (by omega), hk, List.getD_cons_succ]
        congr 2
        omega
      · rw [if_neg hlater, if_neg (by omega)]
        unfold Cpus.add
        split
        · exact Function.update_of_ne hfirst ..
        · rfl

/-- The processors of a table with these entries. -/
theorem acpiParseMadt_eq
    (hlength : le mem (madt + 4) 4 = madtEntriesOffset + (encodeAll entries).length)
    (hbytes : HoldsAt mem (madt + madtEntriesOffset) (encodeAll entries))
    (hentries : ∀ e ∈ entries, e.Legible) (hrounds : entries.length < rounds) (x : Acpi) :
    acpiParseMadt rounds mem (some madt) x = some
      { localApicAddr := UInt32.ofNat (le mem (madt + 36) 4)
        cpuCount := Int32.ofNat (enabledIds entries).length
        acpiCpuCount := Int32.ofNat (enabledIds entries).length
        acpiCpuApicIds := ((enabledIds entries).foldl Cpus.add ⟨0, x.acpiCpuApicIds⟩).apicIds } := by
  have hstop : madt + le mem (madt + 4) 4 =
      madt + madtEntriesOffset + (encodeAll entries).length := by
    rw [hlength, Nat.add_assoc]
  have hloop := parseEntries_eq hbytes hentries hstop hrounds ⟨0, x.acpiCpuApicIds⟩
  have hcount : ((enabledIds entries).foldl Cpus.add ⟨0, x.acpiCpuApicIds⟩).count =
      (enabledIds entries).length := (foldl_add _ _).1.trans (Nat.zero_add _)
  unfold acpiParseMadt
  dsimp only
  rw [hloop, Option.map_some, hcount]

/-- What `acpi_parse_madt` exports for the scheduler. -/
theorem acpiParseMadt_spec {x : Acpi} (h : IsMadt mem madt entries)
    (hrounds : entries.length < rounds) :
    ∃ y, acpiParseMadt rounds mem (some madt) x = some y ∧
      y.acpiCpuCount = Int32.ofNat (enabledIds entries).length ∧
      ∀ i < 64, ∀ id, (enabledIds entries)[i]? = some id → y.acpiCpuApicIds i = id.toUInt32 := by
  refine ⟨_, acpiParseMadt_eq h.length h.bytes (fun e he => (h.wellFormed e he).legible) hrounds x,
    rfl, fun i hi id hid => ?_⟩
  obtain ⟨hlt, -⟩ := List.getElem?_eq_some_iff.mp hid
  dsimp only
  rw [(foldl_add _ _).2 i hi]
  dsimp only
  rw [if_pos (by omega), Nat.sub_zero, List.getD_eq_getElem?_getD, hid]
  rfl

end Rhoudveine.Acpi
