import Rhoudveine.Lib.Bisect

/-!
# The table of PCI names

`pci_db.c`: the binary search of `get_pci_device_name` through the generated table.
-/

namespace Rhoudveine.PciDb
open Bisect

/-! ## The code -/

/-- `pci_device_entry_t`; a string is what its C literal stands for. -/
structure PciDeviceEntry where
  vendorId : UInt16
  deviceId : UInt16
  name : String
  deriving DecidableEq, Repr

/-- `pci_device_db[i]`, `none` outside the table. -/
def entryAt (db : List PciDeviceEntry) (i : ℤ) : Option PciDeviceEntry :=
  if 0 ≤ i then db[i.toNat]? else none

/-- The `while` loop of `get_pci_device_name`: the entry whose name it returns, or `some none` when
it leaves the loop.  It is `none` when the loop looks outside the table or outlasts its rounds. -/
def searchLoop (db : List PciDeviceEntry) (vendorId deviceId : UInt16) :
    (rounds : ℕ) → (left right : ℤ) → Option (Option PciDeviceEntry)
  | 0, _, _ => none
  | rounds + 1, left, right =>
    if right < left then some none
    else
      let mid := left + (right - left) / 2
      match entryAt db mid with
      | none => none
      | some entry =>
        if entry.vendorId = vendorId then
          if entry.deviceId = deviceId then some (some entry)
          else if entry.deviceId < deviceId then
            searchLoop db vendorId deviceId rounds (mid + 1) right
          else searchLoop db vendorId deviceId rounds left (mid - 1)
        else if entry.vendorId < vendorId then
          searchLoop db vendorId deviceId rounds (mid + 1) right
        else searchLoop db vendorId deviceId rounds left (mid - 1)

/-- The search through a table of `PCI_DB_SIZE` entries. -/
def search (db : List PciDeviceEntry) (vendorId deviceId : UInt16) :
    Option (Option PciDeviceEntry) :=
  searchLoop db vendorId deviceId (db.length + 1) 0 (db.length - 1)

/-- What `get_pci_device_name` returns for the outcome of its search. -/
def deviceName : Option PciDeviceEntry → String
  | some entry => entry.name
  | none => "Unknown Device"

def getPciDeviceName (db : List PciDeviceEntry) (vendorId deviceId : UInt16) : Option String :=
  (search db vendorId deviceId).map deviceName

/-! ## The order of the table -/

def key (vendorId deviceId : UInt16) : ℕ ×ₗ ℕ := toLex (vendorId.toNat, deviceId.toNat)

def PciDeviceEntry.key (e : PciDeviceEntry) : ℕ ×ₗ ℕ := PciDb.key e.vendorId e.deviceId

def SortedStrictly (db : List PciDeviceEntry) : Prop := db.Pairwise fun a b => a.key < b.key

instance (db : List PciDeviceEntry) : Decidable (SortedStrictly db) :=
  inferInstanceAs (Decidable (db.Pairwise fun a b => a.key < b.key))

/-- The comparison with the place of an entry in the order of the table. -/
def placeCmp (db : List PciDeviceEntry) (vendorId deviceId : UInt16) (i : ℤ) : Ordering :=
  match entryAt db i with
  | none => .eq
  | some e => cmp e.key (key vendorId deviceId)

variable {db : List PciDeviceEntry} {vendorId deviceId : UInt16} {e : PciDeviceEntry} {i : ℤ}
  {rounds : ℕ} {left right : ℤ}

theorem key_lt_key {v w p q : UInt16} : key v p < key w q ↔ v < w ∨ v = w ∧ p < q := by
  simp only [key, Prod.Lex.toLex_lt_toLex, ← UInt16.lt_iff_toNat_lt, UInt16.toNat_inj]

theorem key_inj {v w p q : UInt16} : key v p = key w q ↔ v = w ∧ p = q := by
  simp only [key, EmbeddingLike.apply_eq_iff_eq, Prod.mk.injEq, UInt16.toNat_inj]

theorem entryAt_inside (hlo : 0 ≤ i) (hhi : i ≤ db.length - 1) : ∃ e ∈ db, entryAt db i = some e := by
  have hlt : i.toNat < db.length := by omega
  exact ⟨db[i.toNat], List.getElem_mem hlt, by simp [entryAt, hlo, hlt]⟩

theorem exists_entryAt (h : e ∈ db) : ∃ i : ℤ, 0 ≤ i ∧ i ≤ db.length - 1 ∧ entryAt db i = some e := by
  obtain ⟨n, hn, rfl⟩ := List.mem_iff_getElem.mp h
  exact ⟨n, by omega, by omega, by simp [entryAt, hn]⟩

theorem mem_of_entryAt (h : entryAt db i = some e) : e ∈ db := by
  unfold entryAt at h
  split_ifs at h
  exact List.mem_of_getElem? h

theorem entryAt_le (hsorted : SortedStrictly db) {j : ℤ} {e' : PciDeviceEntry} (hij : i ≤ j)
    (hi : entryAt db i = some e) (hj : entryAt db j = some e') : e.key ≤ e'.key := by
  unfold entryAt at hi hj
  split_ifs at hi hj
  obtain ⟨hlt, rfl⟩ := List.getElem?_eq_some_iff.mp hi
  obtain ⟨hlt', rfl⟩ := List.getElem?_eq_some_iff.mp hj
  rcases (show i.toNat ≤ j.toNat by omega).lt_or_eq with hbefore | heq
  · exact (List.pairwise_iff_getElem.mp hsorted _ _ hlt hlt' hbefore).le
  · simp only [heq, le_refl]

theorem placeCmp_of_entryAt (h : entryAt db i = some e) :
    placeCmp db vendorId deviceId i = cmp e.key (key vendorId deviceId) := by
  simp only [placeCmp, h]

theorem placeCmp_ascending (hsorted : SortedStrictly db) (vendorId deviceId : UInt16) :
    Ascending (placeCmp db vendorId deviceId) 0 (db.length - 1) := by
  constructor
  · intro i j hi hij hj hlt
    obtain ⟨e, -, he⟩ := entryAt_inside hi (hij.trans hj)
    obtain ⟨e', -, he'⟩ := entryAt_inside (hi.trans hij) hj
    rw [placeCmp_of_entryAt he', cmp_eq_lt_iff] at hlt
    rw [placeCmp_of_entryAt he, cmp_eq_lt_iff]
    exact (entryAt_le hsorted hij he he').trans_lt hlt
  · intro i j hi hij hj hgt
    obtain ⟨e, -, he⟩ := entryAt_inside hi (hij.trans hj)
    obtain ⟨e', -, he'⟩ := entryAt_inside (hi.trans hij) hj
    rw [placeCmp_of_entryAt he, cmp_eq_gt_iff] at hgt
    rw [placeCmp_of_entryAt he', cmp_eq_gt_iff]
    exact hgt.trans_le (entryAt_le hsorted hij he he')

/-- No two entries of the table stand for one device. -/
theorem entry_unique (hsorted : SortedStrictly db) {e' : PciDeviceEntry} (he : e ∈ db)
    (he' : e' ∈ db) (hkey : e.key = e'.key) : e = e' := by
  obtain ⟨i, -, -, hi⟩ := exists_entryAt he
  obtain ⟨j, -, -, hj⟩ := exists_entryAt he'
  unfold entryAt at hi hj
  split_ifs at hi hj
  obtain ⟨hlt, rfl⟩ := List.getElem?_eq_some_iff.mp hi
  obtain ⟨hlt', rfl⟩ := List.getElem?_eq_some_iff.mp hj
  rcases lt_trichotomy i.toNat j.toNat with hbefore | heq | hbehind
  · exact absurd hkey (List.pairwise_iff_getElem.mp hsorted _ _ hlt hlt' hbefore).ne
  · simp only [heq]
  · exact absurd hkey (List.pairwise_iff_getElem.mp hsorted _ _ hlt' hlt hbehind).ne'

/-! ## The search -/

/-- The two branches on the components make one comparison of keys. -/
theorem searchLoop_succ (h : left ≤ right) (he : entryAt db (left + (right - left) / 2) = some e) :
    searchLoop db vendorId deviceId (rounds + 1) left right =
      match cmp e.key (key vendorId deviceId) with
      | .lt => searchLoop db vendorId deviceId rounds (left + (right - left) / 2 + 1) right
      | .gt => searchLoop db vendorId deviceId rounds left (left + (right - left) / 2 - 1)
      | .eq => some (some e) := by
  rw [searchLoop, if_neg (not_lt.mpr h)]
  simp only [he]
  rcases lt_trichotomy e.key (key vendorId deviceId) with hlt | heq | hgt
  · rw [(cmp_eq_lt_iff _ _).mpr hlt]
    rcases key_lt_key.mp hlt with hvendor | ⟨hvendor, hdevice⟩
    · simp [hvendor, UInt16.ne_of_lt hvendor]
    · simp [hvendor, hdevice, UInt16.ne_of_lt hdevice]
  · rw [(cmp_eq_eq_iff _ _).mpr heq]
    obtain ⟨hvendor, hdevice⟩ := key_inj.mp heq
    simp [hvendor, hdevice]
  · rw [(cmp_eq_gt_iff _ _).mpr hgt]
    rcases key_lt_key.mp hgt with hvendor | ⟨hvendor, hdevice⟩
    · simp [(UInt16.ne_of_lt hvendor).symm, UInt16.lt_asymm hvendor]
    · simp [hvendor, (UInt16.ne_of_lt hdevice).symm, UInt16.lt_asymm hdevice]

/-- Inside the table the loop is the binary search of its order, and it ends. -/
theorem searchLoop_eq (hleft : 0 ≤ left) (hright : right ≤ db.length - 1) (h : left ≤ right + 1)
    (hrounds : right - left + 1 < rounds) :
    searchLoop db vendorId deviceId rounds left right =
      some ((bisect (placeCmp db vendorId deviceId) rounds left right).bind (entryAt db)) := by
  induction rounds generalizing left right with
  | zero => omega
  | succ rounds ih =>
    by_cases hle : left ≤ right
    · obtain ⟨e, -, he⟩ : ∃ e ∈ db, entryAt db (left + (right - left) / 2) = some e :=
        entryAt_inside (by omega) (by omega)
      have hplace : placeCmp db vendorId deviceId _ = _ := placeCmp_of_entryAt he
      rw [searchLoop_succ hle he]
      cases hmid : cmp e.key (key vendorId deviceId) with
      | lt =>
        rw [bisect_lt hle (hplace.trans hmid)]
        exact ih (by omega) hright (by omega) (by omega)
      | gt =>
        rw [bisect_gt hle (hplace.trans hmid)]
        exact ih hleft (by omega) (by omega) (by omega)
      | eq => simp [bisect_eq hle (hplace.trans hmid), he]
    · rw [searchLoop, if_pos (not_le.mp hle), bisect_empty (not_le.mp hle)]
      rfl

/-- The places that the loop looks at lie in the table, so that `left`, `right` and `mid` are `int`s
with the number of entries. -/
theorem probes_inside (db : List PciDeviceEntry) (vendorId deviceId : UInt16) :
    ∀ i ∈ probes (placeCmp db vendorId deviceId) (db.length + 1) 0 (db.length - 1),
      0 ≤ i ∧ i ≤ db.length - 1 :=
  fun _ => probes_between

theorem search_eq (db : List PciDeviceEntry) (vendorId deviceId : UInt16) :
    search db vendorId deviceId =
      some ((bisect (placeCmp db vendorId deviceId) (db.length + 1) 0 (db.length - 1)).bind
        (entryAt db)) :=
  searchLoop_eq le_rfl le_rfl (by omega) (by omega)

/-- `entry` is the one of the device. -/
def IsEntryOf (db : List PciDeviceEntry) (vendorId deviceId : UInt16) (e : PciDeviceEntry) : Prop :=
  e ∈ db ∧ e.vendorId = vendorId ∧ e.deviceId = deviceId

theorem bisect_finds_iff (hsorted : SortedStrictly db) :
    (bisect (placeCmp db vendorId deviceId) (db.length + 1) 0 (db.length - 1)).bind (entryAt db) =
      some e ↔ IsEntryOf db vendorId deviceId e := by
  constructor
  · intro h
    obtain ⟨i, hfound, he⟩ := Option.bind_eq_some_iff.mp h
    obtain ⟨-, -, heq⟩ := bisect_sound hfound
    rw [placeCmp_of_entryAt he, cmp_eq_eq_iff] at heq
    exact ⟨mem_of_entryAt he, key_inj.mp heq⟩
  · rintro ⟨he, rfl, rfl⟩
    obtain ⟨k, hlo, hhi, hk⟩ := exists_entryAt he
    have hplace : placeCmp db e.vendorId e.deviceId k = .eq :=
      (placeCmp_of_entryAt hk).trans (cmp_self_eq_eq _)
    obtain ⟨i, hfound⟩ := Option.isSome_iff_exists.mp
      (bisect_complete (placeCmp_ascending hsorted _ _) hlo hhi hplace
        (show (db.length : ℤ) - 1 - 0 < (db.length + 1 : ℕ) by omega))
    obtain ⟨hlo', hhi', heq⟩ := bisect_sound hfound
    obtain ⟨e', he', hi⟩ := entryAt_inside hlo' hhi'
    rw [placeCmp_of_entryAt hi, cmp_eq_eq_iff] at heq
    rw [hfound, Option.bind_some, hi, entry_unique hsorted he' he heq]

/-- In a table sorted strictly the search ends, looks only inside the table, and its outcome is the
entry of the device: without one the name is `"Unknown Device"`. -/
theorem get_pci_device_name_correct (hsorted : SortedStrictly db) (vendorId deviceId : UInt16) :
    ∃ found, search db vendorId deviceId = some found ∧
      getPciDeviceName db vendorId deviceId = some (deviceName found) ∧
      (∀ e, found = some e ↔ IsEntryOf db vendorId deviceId e) ∧
      (found = none ↔ ¬ ∃ e, IsEntryOf db vendorId deviceId e) := by
  refine ⟨_, search_eq db vendorId deviceId, ?_, fun e => bisect_finds_iff hsorted, ?_⟩
  · rw [getPciDeviceName, search_eq, Option.map_some]
  · rw [Option.eq_none_iff_forall_ne_some, not_exists]
    exact forall_congr' fun e => not_congr (bisect_finds_iff hsorted)

/-- Three entries of two vendors. -/
theorem get_pci_device_name_correct_three :
    ∃ found, search [⟨1, 5, "A"⟩, ⟨1, 7, "B"⟩, ⟨2, 3, "C"⟩] 1 7 = some found ∧
      getPciDeviceName [⟨1, 5, "A"⟩, ⟨1, 7, "B"⟩, ⟨2, 3, "C"⟩] 1 7 = some (deviceName found) ∧
      (∀ e, found = some e ↔ IsEntryOf [⟨1, 5, "A"⟩, ⟨1, 7, "B"⟩, ⟨2, 3, "C"⟩] 1 7 e) ∧
      (found = none ↔ ¬ ∃ e, IsEntryOf [⟨1, 5, "A"⟩, ⟨1, 7, "B"⟩, ⟨2, 3, "C"⟩] 1 7 e) :=
  get_pci_device_name_correct (by decide +kernel) 1 7

end Rhoudveine.PciDb
