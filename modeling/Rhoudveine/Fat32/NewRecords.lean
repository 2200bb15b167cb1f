import Rhoudveine.Fat32.Lookup

/-!
# The records of a new entry

What the scans read back from the records that `fat32_create_entry` writes for a name.
-/

namespace Rhoudveine.Fat32
open Fs LittleEndian

/-- A name of 1 to 255 ASCII characters. -/
structure AsciiName (name : Str) : Prop where
  pos : 0 < name.length
  le : name.length ≤ 255
  ascii : ∀ c ∈ name, c ≠ 0 ∧ c < 0x80

/-! ## Long names -/

theorem toUInt16_ne_zero {c : UInt8} (hc : c ≠ 0) : c.toUInt16 ≠ 0 := by
  revert c
  decide +kernel

theorem asciiOf_toUInt16 {c : UInt8} (hc : c < 0x80) : asciiOf c.toUInt16 = c := by
  revert c
  decide +kernel

/-- The name in UTF-16. -/
def AsciiName.long {name : Str} (h : AsciiName name) : LongName where
  units := name.map UInt8.toUInt16
  pos := by simpa using h.pos
  le := by simpa using h.le
  nonzero := by
    intro u hu
    obtain ⟨c, hc, rfl⟩ := List.mem_map.mp hu
    exact toUInt16_ne_zero (h.ascii c hc).1

variable {name : Str} {r : Record} {k : ℕ}

theorem AsciiName.text_long (h : AsciiName name) : h.long.text = name := by
  rw [LongName.text, AsciiName.long, List.map_map]
  exact (List.map_congr_left fun c hc => asciiOf_toUInt16 (h.ascii c hc).2).trans
    (List.map_id' name)

theorem AsciiName.parts_long (h : AsciiName name) : h.long.parts = (name.length + 12) / 13 := by
  rw [LongName.parts, AsciiName.long, List.length_map]

/-- Where character `i` of a long-name record lies. -/
theorem charIndex_spec : ∀ i < 13, Lfn.charIndex i ≠ 0 ∧ Lfn.charIndex i + 1 ≠ 11 ∧
    Lfn.charIndex i ≠ 11 ∧ Lfn.charIndex i + 1 ≠ 13 ∧ Lfn.charIndex i ≠ 13 ∧
    (List.range 13).find? (fun k => Lfn.charIndex k = Lfn.charIndex i ∨
      Lfn.charIndex k + 1 = Lfn.charIndex i) = some i ∧
    (List.range 13).find? (fun k => Lfn.charIndex k = Lfn.charIndex i + 1 ∨
      Lfn.charIndex k + 1 = Lfn.charIndex i + 1) = some i := by
  decide

theorem lfnRecord_code (name : Str) (chksum : UInt8) (k total : ℕ) {i : ℕ} (hi : i < 13) :
    lfnRecord name chksum k total (Lfn.charIndex i) =
        (lfnCode ((name.drop ((k - 1) * 13)).take 13) i).1 ∧
      lfnRecord name chksum k total (Lfn.charIndex i + 1) =
        (lfnCode ((name.drop ((k - 1) * 13)).take 13) i).2 := by
  obtain ⟨h0, h11', h11, h13', h13, hlow, hhigh⟩ := charIndex_spec i hi
  constructor
  · simp only [lfnRecord, if_neg h0, if_neg h11, if_neg h13, hlow, if_true]
  · simp only [lfnRecord, if_neg (Nat.succ_ne_zero _), if_neg h11', if_neg h13', hhigh]
    exact if_neg (Nat.succ_ne_self _).symm

theorem unit_lfnRecord (h : AsciiName name) (chksum : UInt8) (total : ℕ) (hk : k < h.long.parts)
    {i : ℕ} (hi : i < 13) :
    Record.unit (lfnRecord name chksum (k + 1) total) i = h.long.stored (13 * k + i) := by
  have hpart : ((name.drop (k * 13)).take 13).length = min 13 (name.length - k * 13) := by
    rw [List.length_take, List.length_drop]
  have hinside : 13 * k < name.length := by
    rw [h.parts_long] at hk
    omega
  obtain ⟨hlow, hhigh⟩ := lfnRecord_code name chksum (k + 1) total hi
  rw [Nat.add_sub_cancel] at hlow hhigh
  rw [Record.unit]
  simp only [le, hlow, hhigh, Nat.mul_zero, Nat.add_zero]
  have hunits : h.long.units.length = name.length := List.length_map _
  rw [LongName.stored, hunits]
  unfold lfnCode
  rw [hpart]
  by_cases hlt : 13 * k + i < name.length
  · have hchar : ((name.drop (k * 13)).take 13).getD i 0 = name[13 * k + i] := by
      rw [List.getD_eq_getElem _ _ (by rw [hpart]; omega), List.getElem_take, List.getElem_drop]
      congr 1
      omega
    have hascii := (h.ascii _ (List.getElem_mem hlt)).2
    have hunit : h.long.units.getD (13 * k + i) 0xFFFF = name[13 * k + i].toUInt16 := by
      rw [List.getD_eq_getElem _ _ (by rw [hunits]; exact hlt)]
      exact List.getElem_map _
    rw [if_pos (by omega), if_neg hlt.ne, hunit]
    dsimp only
    rw [hchar, if_pos hascii]
    apply UInt16.toNat_inj.mp
    rw [UInt16.toNat_ofNat', UInt8.toNat_toUInt16]
    have hbyte := UInt8.toNat_lt name[13 * k + i]
    change (name[13 * k + i].toNat + 256 * 0) % 65536 = _
    omega
  · rw [if_neg (by omega)]
    by_cases heq : 13 * k + i = name.length
    · rw [if_pos (by omega), if_pos heq]
      rfl
    · rw [if_neg (by omega), if_neg heq, List.getD_eq_default _ _ (by rw [hunits]; omega)]
      rfl

theorem lfnRecord_part (h : AsciiName name) (hk : k < h.long.parts) :
    h.long.Part r (k + 1) (lfnRecord name r.checksum (k + 1) h.long.parts) := by
  have hattr : (lfnRecord name r.checksum (k + 1) h.long.parts).attr = attrLfn := rfl
  constructor
  · rw [hattr]
    rfl
  · rfl
  · rfl
  · intro i hi
    rw [Nat.add_sub_cancel]
    exact unit_lfnRecord h r.checksum h.long.parts hk hi

/-- The long-name records are a set for the short one. -/
theorem lfnRecords_parts (h : AsciiName name) (r : Record) :
    h.long.Parts r h.long.parts ((List.range h.long.parts).map fun j =>
      lfnRecord name r.checksum (h.long.parts - j) h.long.parts) := by
  apply LongName.parts_map
  intro j hj
  obtain ⟨k, hk⟩ := Nat.exists_eq_add_of_lt hj
  have hnumber : h.long.parts - j = k + 1 := by omega
  rw [hnumber]
  exact lfnRecord_part h (by omega)

/-! ## Short names -/

/-- The name is read back from an 11-byte field as it is. -/
def Fits83 (name : Str) : Prop :=
  space ∉ name ∧ (dot ∈ name → extension name ≠ [] ∧ (extension name).length ≤ 3)

/-- What is read back from the field of a short name, but for its case. -/
def readBack (name : Str) : Str :=
  (stem name).takeWhile (· ≠ space) ++
    if ((extension name).take 3).getD 0 space ≠ space then
      dot :: ((extension name).take 3).takeWhile (· ≠ space)
    else []

theorem name_eq (name : Str) :
    name = stem name ++ if dot ∈ name then dot :: extension name else [] := by
  have hsplit : stem name ++ name.dropWhile (· ≠ dot) = name := List.takeWhile_append_dropWhile
  unfold extension
  cases hrest : name.dropWhile (· ≠ dot) with
  | nil =>
    rw [hrest, List.append_nil] at hsplit
    have hnot : dot ∉ name := by
      rw [← hsplit]
      intro hmem
      simpa using List.mem_takeWhile_imp hmem
    rw [if_neg hnot, List.append_nil, hsplit]
  | cons c rest =>
    have hc : c = dot := by
      have hhead := List.head_dropWhile_not (fun c : UInt8 => decide (c ≠ dot))
        (List.ne_nil_of_length_pos (by rw [hrest]; exact Nat.succ_pos _))
      simp only [hrest, List.head_cons] at hhead
      simpa using hhead
    subst hc
    rw [hrest] at hsplit
    have hmem : dot ∈ name := by
      rw [← hsplit]
      simp
    rw [if_pos hmem]
    exact hsplit.symm

theorem takeWhile_padded_eq (n : ℕ) (s : Str) :
    (padded n s).takeWhile (· ≠ space) = s.takeWhile (· ≠ space) := by
  have hspaces :
      (List.replicate (n - s.length) space).takeWhile (fun c => decide (c ≠ space)) = [] := by
    cases n - s.length with
    | zero => rfl
    | succ k => rfl
  rw [padded, List.takeWhile_append, hspaces, List.append_nil]
  split
  · rename_i hall
    exact ((List.takeWhile_sublist _).eq_of_length hall).symm
  · rfl

theorem takeWhile_map_toUpper (s : Str) :
    (s.map toUpper).takeWhile (· ≠ space) = (s.takeWhile (· ≠ space)).map toUpper := by
  rw [List.takeWhile_map]
  congr 2
  funext c
  revert c
  decide +kernel

theorem takeWhile_map_toLower {s : Str} (h : ∀ c ∈ s, c ≠ 0) :
    (s.map toLower).takeWhile (· ≠ 0) = s.map toLower := by
  apply List.takeWhile_eq_self_iff.mpr
  intro c hc
  obtain ⟨d, hd, rfl⟩ := List.mem_map.mp hc
  have hne : ∀ d : UInt8, d ≠ 0 → toLower d ≠ 0 := by decide +kernel
  simpa using hne d (h d hd)

theorem normalName_congr {r r' : Record} (h : ∀ k < 11, r k = r' k) :
    fat32ToNormalName r = fat32ToNormalName r' := by
  have hpart (start len : ℕ) (hlen : start + len ≤ 11) :
      namePart r start len = namePart r' start len := by
    have hmap : (List.range len).map (fun i => r (start + i)) =
        (List.range len).map fun i => r' (start + i) := by
      apply List.map_congr_left
      intro i hi
      exact h (start + i) (by have := List.mem_range.mp hi; omega)
    rw [namePart, namePart, hmap]
  rw [fat32ToNormalName, fat32ToNormalName, hpart 0 8 (by norm_num), hpart 8 3 (by norm_num),
    h 8 (by norm_num)]

/-- The name that is read back from a short record. -/
theorem normalName_shortRecord (hlen : name.length ≤ 8) (hzero : ∀ c ∈ name, c ≠ 0) (attr : UInt8)
    (first : UInt32) : fat32ToNormalName (shortRecord (fat32ToFatName name) attr first) =
      (readBack name).map toLower := by
  have hstem : (stem name).length ≤ 8 := (List.takeWhile_sublist _).length_le.trans hlen
  have htake : (stem name).take 8 = stem name := List.take_of_length_le hstem
  have hfield : fat32ToFatName name =
      padded 8 ((stem name).map toUpper) ++ padded 3 (((extension name).take 3).map toUpper) := by
    rw [fat32ToFatName, htake]
  have hbase : (padded 8 ((stem name).map toUpper)).length = 8 :=
    length_padded (by rwa [List.length_map])
  have hext : (padded 3 (((extension name).take 3).map toUpper)).length = 3 :=
    length_padded (by rw [List.length_map, List.length_take]; omega)
  have hsame : ∀ k < 11, shortRecord (fat32ToFatName name) attr first k =
      nameRecord (fat32ToFatName name) k := fun k hk => if_pos hk
  have hfirst := map_nameRecord [] (padded 8 ((stem name).map toUpper))
    (padded 3 (((extension name).take 3).map toUpper))
  have hsecond := map_nameRecord (padded 8 ((stem name).map toUpper))
    (padded 3 (((extension name).take 3).map toUpper)) []
  rw [hbase, List.nil_append, ← hfield] at hfirst
  rw [hbase, hext, List.append_nil, ← hfield] at hsecond
  have hlower (s : Str) : (s.map toUpper).map toLower = s.map toLower := by
    rw [List.map_map]
    exact List.map_congr_left fun c _ => toLower_toUpper c
  have hpart : namePart (nameRecord (fat32ToFatName name)) 0 8 =
      ((stem name).takeWhile (· ≠ space)).map toLower := by
    rw [namePart]
    change (List.takeWhile _ ((List.range 8).map fun i =>
      nameRecord (fat32ToFatName name) (([] : Str).length + i))).map toLower = _
    rw [hfirst, takeWhile_padded_eq, takeWhile_map_toUpper, hlower]
  have hpart' : namePart (nameRecord (fat32ToFatName name)) 8 3 =
      (((extension name).take 3).takeWhile (· ≠ space)).map toLower := by
    rw [namePart, hsecond, takeWhile_padded_eq, takeWhile_map_toUpper, hlower]
  have height : nameRecord (fat32ToFatName name) 8 ≠ space ↔
      ((extension name).take 3).getD 0 space ≠ space := by
    rw [nameRecord, hfield, List.getD_append_right _ _ _ _ hbase.le, hbase]
    cases (extension name).take 3 with
    | nil => exact iff_of_false (by decide) (by decide)
    | cons c rest =>
      have hupper : ∀ c : UInt8, toUpper c ≠ space ↔ c ≠ space := by decide +kernel
      exact hupper c
  have hnonzero : ∀ c ∈ readBack name, c ≠ 0 := by
    intro c hc
    rcases List.mem_append.mp hc with hc | hc
    · exact hzero c ((List.takeWhile_sublist _).subset ((List.takeWhile_sublist _).subset hc))
    · split at hc
      · rcases List.mem_cons.mp hc with rfl | hc
        · decide
        · exact hzero c ((List.dropWhile_sublist _).subset (List.mem_of_mem_drop
            (List.mem_of_mem_take ((List.takeWhile_sublist _).subset hc))))
      · cases hc
  rw [normalName_congr hsame, fat32ToNormalName, hpart, hpart']
  simp only [height]
  rw [← takeWhile_map_toLower hnonzero, readBack, List.map_append]
  congr 2
  split <;> rfl

theorem sameText_map_toLower {s t : Str} : SameText (s.map toLower) t ↔ SameText s t := by
  have hcase : ∀ c : UInt8, toUpper (toLower c) = toUpper c := by decide +kernel
  have hmap : (s.map toLower).map toUpper = s.map toUpper := by
    rw [List.map_map]
    exact List.map_congr_left fun c _ => hcase c
  rw [SameText, SameText, hmap]

theorem takeWhile_eq_self {s : Str} (h : space ∉ s) : s.takeWhile (· ≠ space) = s := by
  apply List.takeWhile_eq_self_iff.mpr
  intro c hc
  have hne : c ≠ space := by
    rintro rfl
    exact h hc
  simpa using hne

theorem not_mem_of_length {s : Str} (h : s.length ≤ (s.takeWhile (· ≠ space)).length) :
    space ∉ s := by
  have heq := (List.takeWhile_sublist _).eq_of_length_le h
  intro hmem
  rw [← heq] at hmem
  simpa using List.mem_takeWhile_imp hmem

/-- The two parts can only get shorter. -/
theorem sameText_readBack (name : Str) : SameText (readBack name) name ↔ Fits83 name := by
  have hname := name_eq name
  have hlength := congrArg List.length hname
  rw [List.length_append] at hlength
  have hbase := (List.takeWhile_sublist (l := stem name) fun c => decide (c ≠ space)).length_le
  have hext := (List.takeWhile_sublist (l := (extension name).take 3)
    fun c => decide (c ≠ space)).length_le
  have htake : ((extension name).take 3).length = min 3 (extension name).length :=
    List.length_take
  unfold readBack Fits83
  by_cases hdot : dot ∈ name
  · rw [if_pos hdot] at hname hlength
    rw [List.length_cons] at hlength
    constructor
    · intro hsame
      have hsum := hsame.length
      rw [List.length_append, hlength] at hsum
      by_cases hfirst : ((extension name).take 3).getD 0 space ≠ space
      · rw [if_pos hfirst, List.length_cons] at hsum
        have hshort : (extension name).length ≤ 3 := by omega
        have hstem : space ∉ stem name := not_mem_of_length (by omega)
        have hextension := List.take_of_length_le hshort
        have hspace : space ∉ extension name := by
          rw [← hextension]
          exact not_mem_of_length (by omega)
        refine ⟨?_, fun _ => ⟨?_, hshort⟩⟩
        · rw [hname, List.mem_append, List.mem_cons]
          rintro (hmem | hmem | hmem)
          · exact hstem hmem
          · exact absurd hmem (by decide)
          · exact hspace hmem
        · intro hnil
          rw [hnil] at hfirst
          exact hfirst rfl
      · rw [if_neg hfirst, List.length_nil] at hsum
        omega
    · rintro ⟨hspace, hfits⟩
      obtain ⟨hne, hshort⟩ := hfits hdot
      have hmem (c : UInt8) (hc : c = space) : c ∉ stem name ∧ c ∉ extension name := by
        subst hc
        rw [hname, List.mem_append, List.mem_cons, not_or, not_or] at hspace
        exact ⟨hspace.1, hspace.2.2⟩
      have hextension := List.take_of_length_le hshort
      have hfirst : ((extension name).take 3).getD 0 space ≠ space := by
        rw [hextension]
        cases hcons : extension name with
        | nil => exact absurd hcons hne
        | cons c rest =>
          intro hc
          exact (hmem c hc).2 (by rw [hcons]; exact List.mem_cons_self)
      rw [if_pos hfirst, hextension, takeWhile_eq_self (hmem space rfl).1,
        takeWhile_eq_self (hmem space rfl).2, ← hname]
      rfl
  · rw [if_neg hdot, List.append_nil] at hname
    have hnone : extension name = [] := by
      have hall : ∀ c ∈ name, decide (c ≠ dot) = true := by
        intro c hc
        have hne : c ≠ dot := by
          rintro rfl
          exact hdot hc
        simpa using hne
      rw [extension, List.dropWhile_eq_nil_iff.mpr hall]
      rfl
    have hfirst : ¬ ((extension name).take 3).getD 0 space ≠ space := by
      rw [hnone]
      exact not_not.mpr rfl
    rw [if_neg hfirst, List.append_nil, ← hname]
    constructor
    · intro hsame
      exact ⟨not_mem_of_length hsame.length.ge, fun hmem => absurd hmem hdot⟩
    · intro h
      rw [takeWhile_eq_self h.1]
      rfl

/-- A short name is read back as it was given, but for its case, exactly when it fits. -/
theorem sameText_shortRecord (hlen : name.length ≤ 8) (hzero : ∀ c ∈ name, c ≠ 0) (attr : UInt8)
    (first : UInt32) :
    SameText (fat32ToNormalName (shortRecord (fat32ToFatName name) attr first)) name ↔
      Fits83 name := by
  rw [normalName_shortRecord hlen hzero, sameText_map_toLower, sameText_readBack]

/-! ## A new entry in a scan -/

variable {attr : UInt8} {first : UInt32} {lfn : Lfn} {zs : List Record}

theorem length_le_of_short (h : isLfn name = false) : name.length ≤ 8 := by
  unfold isLfn at h
  simp only [Bool.or_eq_false_iff, decide_eq_false_iff_not] at h
  omega

theorem padded_ne_zero {n : ℕ} {s : Str} (h : ∀ c ∈ s, c ≠ 0) : ∀ c ∈ padded n s, c ≠ 0 := by
  intro c hc
  rcases List.mem_append.mp hc with hc | hc
  · exact h c hc
  · rw [List.eq_of_mem_replicate hc]
    decide

theorem toUpper_ne_zero {s : Str} (h : ∀ c ∈ s, c ≠ 0) : ∀ c ∈ s.map toUpper, c ≠ 0 := by
  intro c hc
  obtain ⟨d, hd, rfl⟩ := List.mem_map.mp hc
  have hne : ∀ d : UInt8, d ≠ 0 → toUpper d ≠ 0 := by decide +kernel
  exact hne d (h d hd)

theorem lastExtension_mem {s e : Str} (h : lastExtension s = some e) : ∀ c ∈ e, c ∈ s := by
  induction s with
  | nil => cases h
  | cons d s ih =>
    unfold lastExtension at h
    cases hrest : lastExtension s with
    | some e' =>
      simp only [hrest] at h
      obtain rfl := Option.some.inj h
      exact fun c hc => List.mem_cons_of_mem d (ih hrest c hc)
    | none =>
      simp only [hrest] at h
      split at h
      · obtain rfl := Option.some.inj h
        exact fun c hc => List.mem_cons_of_mem d hc
      · cases h

theorem stem_mem {c : UInt8} (h : c ∈ stem name) : c ∈ name := (List.takeWhile_sublist _).subset h

theorem extension_mem {c : UInt8} (h : c ∈ extension name) : c ∈ name :=
  (List.dropWhile_sublist _).subset (List.mem_of_mem_drop h)

theorem shortName_ne_zero (h : ∀ c ∈ name, c ≠ 0) : ∀ c ∈ shortName name, c ≠ 0 := by
  intro c hc
  unfold shortName at hc
  split at hc
  · rw [makeShortName, List.mem_append, List.mem_append] at hc
    rcases hc with (hc | hc) | hc
    · refine padded_ne_zero (fun d hd => ?_) c hc
      have hd := List.mem_of_mem_filter (List.mem_of_mem_take hd)
      exact toUpper_ne_zero (fun x hx => h x (stem_mem hx)) d hd
    · have hall : ∀ c ∈ ([0x7E, 0x31] : Str), c ≠ 0 := by decide +kernel
      exact hall c hc
    · refine padded_ne_zero (toUpper_ne_zero fun x hx => ?_) c hc
      have hx := List.mem_of_mem_take hx
      cases hlast : lastExtension name with
      | none =>
        rw [hlast] at hx
        cases hx
      | some e =>
        rw [hlast] at hx
        exact h x (lastExtension_mem hlast x hx)
  · rw [fat32ToFatName, List.mem_append] at hc
    rcases hc with hc | hc
    · exact padded_ne_zero (toUpper_ne_zero fun x hx =>
        h x (stem_mem (List.mem_of_mem_take hx))) c hc
    · exact padded_ne_zero (toUpper_ne_zero fun x hx =>
        h x (extension_mem (List.mem_of_mem_take hx))) c hc

theorem length_shortName_pos (name : Str) : 0 < (shortName name).length := by
  unfold shortName
  split
  · rw [makeShortName, List.length_append, List.length_append]
    exact Nat.add_pos_left (Nat.add_pos_right _ (by decide)) _
  · rw [fat32ToFatName, List.length_append, padded, List.length_append, List.length_replicate]
    omega

theorem shortRecord_first (h : ∀ c ∈ name, c ≠ 0) (attr : UInt8) (first : UInt32) :
    shortRecord (shortName name) attr first 0 ≠ 0 := by
  have hpos := length_shortName_pos name
  have hfirst : shortRecord (shortName name) attr first 0 = (shortName name)[0] :=
    (if_pos (by norm_num)).trans (List.getD_eq_getElem _ _ hpos)
  rw [hfirst]
  exact shortName_ne_zero h _ (List.getElem_mem hpos)

theorem named_shortRecord (hattr : attr &&& attrVolumeId = 0) (s : Str) (first : UInt32) :
    Named (shortRecord s attr first) = true := decide_eq_true hattr

/-- The checksum is that of the name alone. -/
theorem checksum_shortRecord (s : Str) (attr : UInt8) (first : UInt32) :
    (shortRecord s attr first).checksum = (nameRecord s).checksum := by
  unfold Record.checksum
  apply List.foldl_ext
  intro sum k hk
  have hk' : k < 11 := List.mem_range.mp hk
  have hbyte : shortRecord s attr first k = nameRecord s k := if_pos hk'
  rw [hbyte]

theorem lfnEntries_eq (h : AsciiName name) :
    lfnEntries name = if isLfn name then h.long.parts else 0 := by
  rw [h.parts_long]
  rfl

theorem length_entryRecords (name : Str) (attr : UInt8) (first : UInt32) :
    (entryRecords name attr first).length = 1 + lfnEntries name := by
  rw [entryRecords, List.length_append, List.length_map, List.length_range, Nat.add_comm]
  rfl

/-- The records before the short one are long-name records. -/
theorem lfnRecords_spec (h : AsciiName name) (r : Record) :
    ∀ p ∈ (List.range (lfnEntries name)).map
        (fun j => lfnRecord name r.checksum (lfnEntries name - j) (lfnEntries name)),
      p 0 ≠ 0 ∧ p.attr &&& attrLfn = attrLfn := by
  rw [lfnEntries_eq h]
  split
  · exact (lfnRecords_parts h r).lfnRecords le_rfl
  · simp

/-- What a scan makes of the records of a new entry at the end of a directory. -/
theorem scanned_entryRecords (h : AsciiName name) (hattr : attr &&& attrVolumeId = 0)
    (first : UInt32) (hzs : ∀ z ∈ zs.head?, z 0 = 0) (lfn : Lfn) :
    ∃ lfn', scanned (entryRecords name attr first ++ zs) lfn =
        [(shortRecord (shortName name) attr first, lfn')] ∧
      (isLfn name = true → lfn'.Valid (shortRecord (shortName name) attr first) ∧
        lfn'.name = name.take 247) ∧
      (isLfn name = false → lfn' = lfn) := by
  have hend (lfn : Lfn) : scanned zs lfn = [] := by
    cases zs with
    | nil => rfl
    | cons z zs => rw [scanned, if_pos (hzs z rfl)]
  have hshort (lfn : Lfn) : scanned (shortRecord (shortName name) attr first :: zs) lfn =
      [(shortRecord (shortName name) attr first, lfn)] := by
    rw [scanned_named (shortRecord_first (fun c hc => (h.ascii c hc).1) attr first)
      (named_shortRecord hattr _ _), hend]
  unfold entryRecords
  rw [lfnEntries_eq h, List.append_assoc, List.singleton_append]
  by_cases hlong : isLfn name = true
  · have hset := lfnRecords_parts h (shortRecord (shortName name) attr first)
    have hread := hset.read lfn
    simp only [hlong, if_true]
    rw [scanned_set (hset.lfnRecords le_rfl), hshort]
    refine ⟨_, rfl, fun _ => ⟨hread.valid, ?_⟩, fun hno => by cases hno⟩
    rw [hread.name, h.text_long]
  · rw [if_neg hlong]
    exact ⟨lfn, hshort lfn, fun hyes => absurd hyes hlong, fun _ => rfl⟩

/-- A new entry is listed under its name: a long name is not cut, and a short one fits into its
field, if no long name was left in front of the place. -/
def Kept (name : Str) (lfn : Lfn) : Prop :=
  if isLfn name then name.length ≤ 127
  else if lfn.Valid (nameRecord (shortName name)) then SameText lfn.name name
  else Fits83 name

theorem name_ne_zero (lfn : Lfn) : ∀ c ∈ lfn.name, c ≠ 0 := by
  intro c hc
  simpa using List.mem_takeWhile_imp hc

theorem sameText_take {s t : Str} {n : ℕ} (h : t.length < n) :
    SameText (s.take n) t ↔ SameText s t := by
  constructor
  · intro hsame
    have hlen := hsame.length
    rw [List.length_take] at hlen
    rwa [List.take_of_length_le (by omega)] at hsame
  · intro hsame
    have hlen := hsame.length
    rwa [List.take_of_length_le (by omega)]

theorem SameText.symm {s t : Str} (h : SameText s t) : SameText t s := Eq.symm h

/-- The name of the new entry, and the test of `fat32_finddir`. -/
theorem kept_iff (h : AsciiName name) {lfn lfn' : Lfn}
    (hlong : isLfn name = true → lfn'.Valid (shortRecord (shortName name) attr first) ∧
      lfn'.name = name.take 247) (hshort : isLfn name = false → lfn' = lfn) :
    (SameText (nodeName (shortRecord (shortName name) attr first, lfn')) name ↔ Kept name lfn) ∧
      (Kept name lfn →
        nameMatches name lfn' (shortRecord (shortName name) attr first) = true) := by
  have hzero : ∀ c ∈ name, c ≠ 0 := fun c hc => (h.ascii c hc).1
  unfold Kept nodeName nameMatches
  rw [Bool.or_eq_true, Bool.and_eq_true, decide_eq_true_iff, decide_eq_true_iff, decide_eq_true_iff,
    myStrcasecmp_eq_zero hzero (name_ne_zero lfn'),
    myStrcasecmp_eq_zero hzero (normalName_ne_zero _)]
  cases hlfn : isLfn name with
  | true =>
    obtain ⟨hvalid, hname⟩ := hlong hlfn
    rw [if_pos hvalid, if_pos rfl]
    dsimp only
    rw [hname, List.take_take]
    constructor
    · constructor
      · intro hsame
        have hlen := hsame.length
        rw [List.length_take] at hlen
        omega
      · intro hle
        rw [List.take_of_length_le (by omega)]
        rfl
    · intro hle
      refine .inl ⟨hvalid, ?_⟩
      rw [List.take_of_length_le (by omega)]
      rfl
  | false =>
    obtain rfl := hshort hlfn
    have hlen := length_le_of_short hlfn
    have hvalid : lfn'.Valid (shortRecord (shortName name) attr first) ↔
        lfn'.Valid (nameRecord (shortName name)) := by
      unfold Lfn.Valid
      rw [checksum_shortRecord]
    have hfat : shortName name = fat32ToFatName name := by
      rw [shortName, hlfn]
      rfl
    simp only [hvalid, Bool.false_eq_true, if_false]
    by_cases hyes : lfn'.Valid (nameRecord (shortName name))
    · rw [if_pos hyes, if_pos hyes, sameText_take (by omega)]
      exact ⟨Iff.rfl, fun hsame => .inl ⟨hyes, hsame.symm⟩⟩
    · rw [if_neg hyes, if_neg hyes, hfat, sameText_shortRecord hlen hzero]
      refine ⟨Iff.rfl, fun hfits => .inr ?_⟩
      exact ((sameText_shortRecord hlen hzero attr first).mpr hfits).symm

end Rhoudveine.Fat32
