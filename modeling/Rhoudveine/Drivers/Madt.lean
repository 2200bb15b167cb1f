import Rhoudveine.Drivers.Acpi

/-!
# The reads of the MADT

The bytes that `acpi_parse_madt` reads, when they lie in the table, and the processors that it
finds in a table that its entries fill.
-/

namespace Rhoudveine.Acpi
open LittleEndian

/-! ## The reads -/

def span (a n : ℕ) : List ℕ := (List.range n).map (a + ·)

/-- What one round reads of the entry at `ptr`: its type, the fields of its structure that are used
and its length. -/
def entryReads (mem : ℕ → UInt8) (ptr : ℕ) : List ℕ :=
  ptr ::
    (if mem ptr = madtTypeLocalApic then
      span (ptr + 4) 4 ++ if le mem (ptr + 4) 4 &&& 1 ≠ 0 then [ptr + 3, ptr + 2] else []
    else if mem ptr = madtTypeIoApic then [ptr + 2] ++ span (ptr + 4) 4 ++ span (ptr + 8) 4
    else if mem ptr = madtTypeInterruptOverride then
      [ptr + 3] ++ span (ptr + 4) 4 ++ span (ptr + 8) 2
    else []) ++
    [ptr + 1]

/-- What the rounds read that `parseEntries` takes. -/
def entriesReads (mem : ℕ → UInt8) (stop : ℕ) : (rounds : ℕ) → (ptr : ℕ) → List ℕ
  | 0, _ => []
  | rounds + 1, ptr =>
    if ptr < stop then
      entryReads mem ptr ++ entriesReads mem stop rounds (ptr + (mem (ptr + 1)).toNat)
    else []

/-- What `acpi_parse_madt` reads of the table in so many rounds: the address of the local APICs, the
length and the entries. -/
def madtReads (rounds : ℕ) (mem : ℕ → UInt8) (madt : ℕ) : List ℕ :=
  span (madt + 36) 4 ++ span (madt + 4) 4 ++
    entriesReads mem (madt + le mem (madt + 4) 4) rounds (madt + madtEntriesOffset)

/-- The parser ends, and every byte that it reads is one of the table. -/
structure StaysInside (mem : ℕ → UInt8) (madt : ℕ) : Prop where
  terminates : ∃ rounds, ∀ x, (acpiParseMadt rounds mem (some madt) x).isSome
  inside : ∀ rounds, ∀ a ∈ madtReads rounds mem madt,
    madt ≤ a ∧ a < madt + le mem (madt + 4) 4

/-- From `ptr` on every entry that begins before `stop` has a length and room for its structure. -/
inductive Stepped (mem : ℕ → UInt8) (stop : ℕ) : (ptr : ℕ) → Prop
  | done {ptr : ℕ} : stop ≤ ptr → Stepped mem stop ptr
  | entry {ptr : ℕ} : ptr + structureLength (mem ptr) ≤ stop → mem (ptr + 1) ≠ 0 →
    Stepped mem stop (ptr + (mem (ptr + 1)).toNat) → Stepped mem stop ptr

variable {mem : ℕ → UInt8} {a n ptr stop rounds madt : ℕ} {entries : List Entry}

@[simp] theorem mem_span : a ∈ span ptr n ↔ ptr ≤ a ∧ a < ptr + n := by
  simp only [span, List.mem_map, List.mem_range]
  constructor
  · rintro ⟨k, hk, rfl⟩
    omega
  · rintro ⟨hle, hlt⟩
    exact ⟨a - ptr, by omega, by omega⟩

theorem le_structureLength (type : UInt8) : 2 ≤ structureLength type := by
  unfold structureLength
  split_ifs <;> omega

/-- The reads of an entry lie in its structure and reach to the end of it. -/
theorem entryReads_between (h : a ∈ entryReads mem ptr) :
    ptr ≤ a ∧ a < ptr + structureLength (mem ptr) := by
  unfold entryReads at h
  unfold structureLength
  split_ifs at h ⊢ <;> simp at h <;> omega

theorem last_mem_entryReads (mem : ℕ → UInt8) (ptr : ℕ) :
    ptr + (structureLength (mem ptr) - 1) ∈ entryReads mem ptr := by
  unfold entryReads structureLength
  split_ifs <;> simp

/-! ## Exactly when they lie in the table -/

theorem Stepped.inside (h : Stepped mem stop ptr) (rounds : ℕ) :
    ∀ a ∈ entriesReads mem stop rounds ptr, ptr ≤ a ∧ a < stop := by
  induction h generalizing rounds with
  | @done ptr hle =>
    cases rounds with
    | zero => simp [entriesReads]
    | succ rounds => simp [entriesReads, not_lt.mpr hle]
  | @entry ptr hroom hlength _ ih =>
    cases rounds with
    | zero => simp [entriesReads]
    | succ rounds =>
      have hpos := le_structureLength (mem ptr)
      intro a ha
      rw [entriesReads, if_pos (by omega), List.mem_append] at ha
      rcases ha with ha | ha
      · have hbetween := entryReads_between ha
        omega
      · have hbetween := ih rounds a ha
        omega

theorem Stepped.terminates (h : Stepped mem stop ptr) :
    ∃ rounds, ∀ c, (parseEntries mem stop rounds ptr c).isSome := by
  induction h with
  | @done ptr hle => exact ⟨1, fun c => by simp [parseEntries, not_lt.mpr hle]⟩
  | @entry ptr hroom hlength _ ih =>
    obtain ⟨rounds, hrounds⟩ := ih
    have hpos := le_structureLength (mem ptr)
    refine ⟨rounds + 1, fun c => ?_⟩
    rw [parseEntries, if_pos (by omega)]
    exact hrounds _

/-- An entry without a length is met again, so that a loop that ends meets none. -/
theorem stepped_of_terminates {c : Cpus} (hterm : (parseEntries mem stop rounds ptr c).isSome)
    (hinside : ∀ rounds, ∀ a ∈ entriesReads mem stop rounds ptr, a < stop) :
    Stepped mem stop ptr := by
  induction rounds generalizing ptr c with
  | zero => cases hterm
  | succ rounds ih =>
    by_cases hmore : ptr < stop
    · rw [parseEntries, if_pos hmore] at hterm
      have hlater : ∀ rounds, ∀ a ∈ entriesReads mem stop rounds (ptr + (mem (ptr + 1)).toNat),
          a < stop := by
        intro rounds a ha
        apply hinside (rounds + 1)
        rw [entriesReads, if_pos hmore]
        exact List.mem_append_right _ ha
      have hrest := ih hterm hlater
      by_cases hlength : mem (ptr + 1) = 0
      · simpa [hlength] using hrest
      · apply Stepped.entry _ hlength hrest
        have hlast := hinside 1 _ (by
          rw [entriesReads, if_pos hmore]
          exact List.mem_append_left _ (last_mem_entryReads mem ptr))
        have hpos := le_structureLength (mem ptr)
        omega
    · exact Stepped.done (not_lt.mp hmore)

/-- The parser stays in the table exactly when the header is there up to the address of the local
APICs and every entry met has a length that is not zero and room for its structure. -/
theorem acpi_parse_madt_inside_iff (mem : ℕ → UInt8) (madt : ℕ) :
    StaysInside mem madt ↔ 40 ≤ le mem (madt + 4) 4 ∧
      Stepped mem (madt + le mem (madt + 4) 4) (madt + madtEntriesOffset) := by
  constructor
  · rintro ⟨⟨rounds, hterm⟩, hinside⟩
    have hheader := hinside 0 (madt + 39) (by simp [madtReads])
    refine ⟨by omega, ?_⟩
    have hloop := hterm Acpi.boot
    rw [acpiParseMadt, Option.isSome_map] at hloop
    refine stepped_of_terminates hloop fun rounds a ha => ?_
    exact (hinside rounds a (List.mem_append_right _ ha)).2
  · rintro ⟨hheader, hstepped⟩
    obtain ⟨rounds, hrounds⟩ := hstepped.terminates
    refine ⟨⟨rounds, fun x => ?_⟩, fun rounds a ha => ?_⟩
    · rw [acpiParseMadt, Option.isSome_map]
      exact hrounds _
    · rw [madtReads, List.mem_append, List.mem_append, mem_span, mem_span] at ha
      rcases ha with (ha | ha) | ha
      · omega
      · omega
      · have hbetween := hstepped.inside rounds a ha
        omega

/-- The last entry of this table says that it is a local APIC and has two bytes. -/
theorem short_entry_overread :
    ¬ ∀ (mem : ℕ → UInt8) (madt : ℕ), StaysInside mem madt := by
  intro hall
  have hread := (hall (fun i => (madtBytes [⟨0, []⟩]).getD i 0) 0).inside 1 48 (by decide +kernel)
  revert hread
  decide +kernel

/-! ## The processors of a filled table -/

theorem foldl_add_outside (ids : List UInt8) (c : Cpus) {i : ℕ} (hi : 64 ≤ i) :
    (ids.foldl Cpus.add c).apicIds i = c.apicIds i := by
  induction ids generalizing c with
  | nil => rfl
  | cons id ids ih =>
    rw [List.foldl_cons, ih]
    unfold Cpus.add
    split_ifs with hlt
    · exact Function.update_of_ne (by omega) ..
    · rfl

/-- An enabled processor takes at least eight bytes of the table. -/
theorem length_enabledIds_le (h : ∀ e ∈ entries, e.Legible) :
    8 * (enabledIds entries).length ≤ (encodeAll entries).length := by
  induction entries with
  | nil => simp [enabledIds, encodeAll]
  | cons e entries ih =>
    obtain ⟨he, hentries⟩ := List.forall_mem_cons.mp h
    have hrest := ih hentries
    simp only [enabledIds, encodeAll, List.filterMap_cons, List.flatMap_cons,
      List.length_append, e.length_encode] at hrest ⊢
    cases henabled : e.enabled with
    | none => simp only []; omega
    | some id =>
      have htype : e.type = madtTypeLocalApic := by
        unfold Entry.enabled at henabled
        split_ifs at henabled with hcond
        exact hcond.1
      have hlength := he.localApic htype
      simp only [List.length_cons]
      omega

/-- The count of a filled table is that of its enabled local APICs, and the array takes their APIC
ids, as many as it has room for, and nothing else. -/
theorem acpi_parse_madt_counts (h : IsFilled mem madt entries) (x : Acpi) :
    ∃ y, (∀ rounds, entries.length < rounds → acpiParseMadt rounds mem (some madt) x = some y) ∧
      y.acpiCpuCount.toInt = (enabledIds entries).length ∧
      (∀ i < min (enabledIds entries).length 64, ∃ id, (enabledIds entries)[i]? = some id ∧
        y.acpiCpuApicIds i = id.toUInt32) ∧
      ∀ i, ¬ i < min (enabledIds entries).length 64 → y.acpiCpuApicIds i = x.acpiCpuApicIds i := by
  have hentries : ∀ e ∈ entries, e.Legible := fun e he => (h.covers e he).legible
  refine ⟨_, fun rounds hrounds => acpiParseMadt_eq h.length h.bytes hentries hrounds x, ?_, ?_, ?_⟩
  · have hle := length_enabledIds_le hentries
    have hlt := le_lt mem (madt + 4) 4
    rw [h.length] at hlt
    exact Int32.toInt_ofNat_of_lt (by omega)
  · intro i hi
    rw [lt_min_iff] at hi
    refine ⟨_, List.getElem?_eq_getElem hi.1, ?_⟩
    dsimp only
    rw [(foldl_add _ _).2 i hi.2]
    dsimp only
    rw [if_pos (by omega), Nat.sub_zero, List.getD_eq_getElem _ _ hi.1]
  · intro i hi
    rw [lt_min_iff, not_and, not_lt] at hi
    dsimp only
    by_cases hroom : i < 64
    · rw [(foldl_add _ _).2 i hroom]
      dsimp only
      exact if_neg (by omega)
    · exact foldl_add_outside _ _ (not_lt.mp hroom)

/-- A disabled processor between two enabled ones, and an entry of an unknown type. -/
def fourEntries : List Entry :=
  [⟨0, [0, 3, 1, 0, 0, 0]⟩, ⟨0, [1, 4, 0, 0, 0, 0]⟩, ⟨9, [7]⟩, ⟨0, [2, 5, 1, 0, 0, 0]⟩]

theorem acpi_parse_madt_counts_two :
    ∃ y, (∀ rounds, fourEntries.length < rounds →
        acpiParseMadt rounds (fun i => (madtBytes fourEntries).getD i 0) (some 0) Acpi.boot =
          some y) ∧
      y.acpiCpuCount.toInt = (enabledIds fourEntries).length ∧
      (∀ i < min (enabledIds fourEntries).length 64, ∃ id, (enabledIds fourEntries)[i]? = some id ∧
        y.acpiCpuApicIds i = id.toUInt32) ∧
      ∀ i, ¬ i < min (enabledIds fourEntries).length 64 →
        y.acpiCpuApicIds i = Acpi.boot.acpiCpuApicIds i :=
  acpi_parse_madt_counts ⟨by decide +kernel, holdsAt_getD _ |>.right, by
    intro e he
    fin_cases he <;> exact ⟨by decide, by decide⟩⟩ _

end Rhoudveine.Acpi
