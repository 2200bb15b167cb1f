import Rhoudveine.Fat32.Create

/-!
# Short names there and back

`fat32_to_fat_name` and `fat32_to_normal_name` against each other.
-/

namespace Rhoudveine.Fat32
open Fs

/-- A base and an extension that both forms of a name can hold. -/
structure NameParts where
  base : Str
  ext : Str
  base_pos : 0 < base.length
  base_le : base.length ≤ 8
  ext_le : ext.length ≤ 3
  plain : ∀ c ∈ base ++ ext, c ≠ 0 ∧ c ≠ space ∧ c ≠ dot

/-- The extension with its dot, if there is one. -/
def suffixed (ext : Str) : Str := if ext = [] then [] else dot :: ext

namespace NameParts

def text (n : NameParts) : Str := n.base ++ suffixed n.ext

/-- The 11 bytes on the disk. -/
def field (n : NameParts) : Str := padded 8 n.base ++ padded 3 n.ext

end NameParts

/-- A record that starts with `name`. -/
def nameRecord (name : Str) : Record := fun k => name.getD k 0

/-! ## Letters -/

variable {c : UInt8} {s base ext : Str} {n : NameParts}

theorem toLower_toUpper (c : UInt8) : toLower (toUpper c) = toLower c := by
  revert c
  decide +kernel

theorem toUpper_toLower (hc : ¬ (0x61 ≤ c ∧ c ≤ 0x7A)) : toUpper (toLower c) = c := by
  revert c
  decide +kernel

theorem plain_toUpper (hc : c ≠ 0 ∧ c ≠ space ∧ c ≠ dot) :
    toUpper c ≠ 0 ∧ toUpper c ≠ space ∧ toUpper c ≠ dot := by
  revert c
  decide +kernel

theorem plain_toLower (hc : c ≠ 0 ∧ c ≠ space ∧ c ≠ dot) :
    toLower c ≠ 0 ∧ toLower c ≠ space ∧ toLower c ≠ dot := by
  revert c
  decide +kernel

/-- The parts with every character replaced. -/
def NameParts.map (n : NameParts) (f : UInt8 → UInt8)
    (hf : ∀ c : UInt8, c ≠ 0 ∧ c ≠ space ∧ c ≠ dot → f c ≠ 0 ∧ f c ≠ space ∧ f c ≠ dot) :
    NameParts where
  base := n.base.map f
  ext := n.ext.map f
  base_pos := by simpa using n.base_pos
  base_le := by simpa using n.base_le
  ext_le := by simpa using n.ext_le
  plain := by
    intro c hc
    rw [← List.map_append] at hc
    obtain ⟨d, hd, rfl⟩ := List.mem_map.mp hc
    exact hf d (n.plain d hd)

/-! ## From the text -/

theorem suffixed_map (ext : Str) {f : UInt8 → UInt8} (hf : f dot = dot) :
    suffixed (ext.map f) = (suffixed ext).map f := by
  cases ext with
  | nil => rfl
  | cons c ext => simp [suffixed, hf]

theorem text_map (n : NameParts) {f : UInt8 → UInt8} (hdot : f dot = dot)
    (hf : ∀ c : UInt8, c ≠ 0 ∧ c ≠ space ∧ c ≠ dot → f c ≠ 0 ∧ f c ≠ space ∧ f c ≠ dot) :
    (n.map f hf).text = n.text.map f := by
  rw [NameParts.text, NameParts.text, List.map_append, ← suffixed_map n.ext hdot]
  rfl

theorem not_dot_base (n : NameParts) : ∀ c ∈ n.base, c ≠ dot := fun c hc =>
  (n.plain c (List.mem_append_left _ hc)).2.2

theorem stem_text (n : NameParts) : stem n.text = n.base := by
  have hbase : ∀ c ∈ n.base, decide (c ≠ dot) = true := by simpa using not_dot_base n
  rw [stem, NameParts.text, List.takeWhile_append_of_pos hbase]
  unfold suffixed
  split_ifs
  · simp
  · simp

theorem extension_text (n : NameParts) : extension n.text = n.ext := by
  have hbase : ∀ c ∈ n.base, decide (c ≠ dot) = true := by simpa using not_dot_base n
  rw [extension, NameParts.text, List.dropWhile_append_of_pos hbase]
  unfold suffixed
  split_ifs with hext
  · simp [hext]
  · simp

/-- The short name is the parts in capitals. -/
theorem fat32ToFatName_text (n : NameParts) :
    fat32ToFatName n.text = (n.map toUpper fun _ => plain_toUpper).field := by
  rw [fat32ToFatName, stem_text, extension_text, List.take_of_length_le n.base_le,
    List.take_of_length_le n.ext_le]
  rfl

/-! ## From the disk -/

theorem length_padded {k : ℕ} (hs : s.length ≤ k) : (padded k s).length = k := by
  rw [padded, List.length_append, List.length_replicate]
  omega

theorem takeWhile_padded {k : ℕ} (hs : ∀ c ∈ s, c ≠ space) :
    (padded k s).takeWhile (· ≠ space) = s := by
  have hs' : ∀ c ∈ s, decide (c ≠ space) = true := by simpa using hs
  rw [padded, List.takeWhile_append_of_pos hs']
  cases k - s.length with
  | zero => simp
  | succ j => simp [List.replicate_succ]

/-- The bytes of a part of the name in its record. -/
theorem map_nameRecord (p q r : Str) :
    (List.range q.length).map (fun i => nameRecord (p ++ q ++ r) (p.length + i)) = q := by
  apply List.ext_getElem
  · simp
  · intro i hi hq
    rw [List.getElem_map, List.getElem_range, nameRecord, List.append_assoc,
      List.getD_append_right _ _ _ _ (Nat.le_add_right _ _), Nat.add_sub_cancel_left,
      List.getD_append _ _ _ _ hq]
    exact List.getD_eq_getElem _ _ hq

theorem namePart_base (n : NameParts) :
    namePart (nameRecord n.field) 0 8 = n.base.map toLower := by
  have hbytes := map_nameRecord [] (padded 8 n.base) (padded 3 n.ext)
  rw [length_padded n.base_le] at hbytes
  have hplain : ∀ c ∈ n.base, c ≠ space := fun c hc =>
    (n.plain c (List.mem_append_left _ hc)).2.1
  rw [namePart, NameParts.field]
  change (List.takeWhile _ ((List.range 8).map fun i =>
    nameRecord ([] ++ padded 8 n.base ++ padded 3 n.ext) (([] : Str).length + i))).map toLower = _
  rw [hbytes, takeWhile_padded hplain]

theorem namePart_ext (n : NameParts) : namePart (nameRecord n.field) 8 3 = n.ext.map toLower := by
  have hbytes := map_nameRecord (padded 8 n.base) (padded 3 n.ext) []
  rw [length_padded n.base_le, length_padded n.ext_le, List.append_nil] at hbytes
  have hplain : ∀ c ∈ n.ext, c ≠ space := fun c hc =>
    (n.plain c (List.mem_append_right _ hc)).2.1
  rw [namePart, NameParts.field, hbytes, takeWhile_padded hplain]

/-- Byte 8 tells whether there is an extension. -/
theorem nameRecord_eight (n : NameParts) : nameRecord n.field 8 = space ↔ n.ext = [] := by
  have height : nameRecord n.field 8 = (padded 3 n.ext).getD 0 0 := by
    rw [nameRecord, NameParts.field,
      List.getD_append_right _ _ _ _ (length_padded n.base_le).le, length_padded n.base_le]
  rw [height]
  have hplain : ∀ c ∈ n.ext, c ≠ space := fun c hc =>
    (n.plain c (List.mem_append_right _ hc)).2.1
  cases hext : n.ext with
  | nil => simp [padded, List.replicate_succ]
  | cons c ext => simp [padded, hplain c (by simp [hext])]

theorem fat32ToNormalName_field (n : NameParts) :
    fat32ToNormalName (nameRecord n.field) = n.text.map toLower := by
  have hsuffix : (if nameRecord n.field 8 ≠ space then dot :: n.ext.map toLower else []) =
      (suffixed n.ext).map toLower := by
    rw [← suffixed_map n.ext (by decide), suffixed]
    simp only [ne_eq, nameRecord_eight, ite_not, List.map_eq_nil_iff]
  rw [fat32ToNormalName, namePart_base, namePart_ext, hsuffix, ← List.map_append]
  apply List.takeWhile_eq_self_iff.mpr
  intro c hc
  obtain ⟨d, hd, rfl⟩ := List.mem_map.mp hc
  have hnonzero : toLower d ≠ 0 := by
    rcases List.mem_append.mp hd with hd | hd
    · exact (plain_toLower (n.plain d (List.mem_append_left _ hd))).1
    · unfold suffixed at hd
      split_ifs at hd
      · cases hd
      · rcases List.mem_cons.mp hd with rfl | hd
        · decide
        · exact (plain_toLower (n.plain d (List.mem_append_right _ hd))).1
  simpa using hnonzero

theorem map_toUpper_toLower (h : ∀ c ∈ s, ¬ (0x61 ≤ c ∧ c ≤ 0x7A)) :
    (s.map toLower).map toUpper = s := by
  rw [List.map_map]
  exact (List.map_congr_left fun c hc => toUpper_toLower (h c hc)).trans (List.map_id' s)

/-- Both ways round. -/
theorem short_name_round_trip (n : NameParts) :
    fat32ToNormalName (nameRecord (fat32ToFatName n.text)) = n.text.map toLower ∧
      ((∀ c ∈ n.base ++ n.ext, ¬ (0x61 ≤ c ∧ c ≤ 0x7A)) →
        fat32ToFatName (fat32ToNormalName (nameRecord n.field)) = n.field) := by
  constructor
  · rw [fat32ToFatName_text, fat32ToNormalName_field, text_map n (by decide), List.map_map]
    exact List.map_congr_left fun c _ => toLower_toUpper c
  · intro hcapitals
    rw [fat32ToNormalName_field, ← text_map n (by decide) fun _ => plain_toLower,
      fat32ToFatName_text]
    exact congrArg₂ (padded 8 · ++ padded 3 ·)
      (map_toUpper_toLower fun c hc => hcapitals c (List.mem_append_left _ hc))
      (map_toUpper_toLower fun c hc => hcapitals c (List.mem_append_right _ hc))

def readmeTxt : NameParts where
  base := str "README"
  ext := str "TXT"
  base_pos := by decide
  base_le := by decide
  ext_le := by decide
  plain := by decide +kernel

theorem short_name_round_trip_readme :
    fat32ToFatName (fat32ToNormalName (nameRecord readmeTxt.field)) = readmeTxt.field :=
  (short_name_round_trip readmeTxt).2 (by decide +kernel)

end Rhoudveine.Fat32
