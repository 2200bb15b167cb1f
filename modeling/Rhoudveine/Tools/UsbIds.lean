import Rhoudveine.Lib.Bisect

/-!
# The table of USB names

`convert_usb_db.py`: the table that `main` sorts and emits, and `usb_id_find`, which it emits
behind the table.
-/

namespace Rhoudveine.UsbIds
open Bisect

/-! ## The code -/

/-- What `parse_usb_ids` returns for a vendor. -/
structure UsbVendor where
  vid : UInt16
  name : String
  devices : List (UInt16 × String)

/-- `usb_id_entry_t`; a string is what its C literal stands for. -/
structure UsbIdEntry where
  vid : UInt16
  pid : UInt16
  vendor : String
  product : String
  deriving DecidableEq, Repr, Inhabited

def UsbVendor.entries (v : UsbVendor) : List UsbIdEntry :=
  ⟨v.vid, 0xFFFF, v.name, "USB Device"⟩ :: v.devices.map fun d => ⟨v.vid, d.1, v.name, d.2⟩

def sortKey (vid pid : UInt16) : ℕ ×ₗ ℤ := toLex (vid.toNat, if pid = 0xFFFF then -1 else pid.toNat)

def UsbIdEntry.key (e : UsbIdEntry) : ℕ ×ₗ ℤ := sortKey e.vid e.pid

/-- `usb_id_table`: the sort keeps the order of entries with one key. -/
def usbIdTable (vendors : List UsbVendor) : List UsbIdEntry :=
  (vendors.flatMap UsbVendor.entries).insertionSort fun a b => a.key ≤ b.key

/-- `usb_id_table[i]`. -/
def entryAt (table : List UsbIdEntry) (i : ℤ) : UsbIdEntry := table.getD i.toNat default

def IsVendorOnly (e : UsbIdEntry) (vid : UInt16) : Prop := e.vid = vid ∧ e.pid = 0xFFFF

instance (e : UsbIdEntry) (vid : UInt16) : Decidable (IsVendorOnly e vid) :=
  inferInstanceAs (Decidable (_ ∧ _))

/-- Both branches that go on take note of a vendor-only entry. -/
def noteVendor (e : UsbIdEntry) (vid : UInt16) (fallback : Option (String × String)) :
    Option (String × String) :=
  if IsVendorOnly e vid then some (e.vendor, e.product) else fallback

/-- The `while` loop of `usb_id_find`: it ends with an entry or with the fallback.  Every round
makes the range shorter, so its length bounds the rounds. -/
def findLoop (table : List UsbIdEntry) (vid pid : UInt16) :
    (rounds : ℕ) → (lo hi : ℤ) → (fallback : Option (String × String)) →
      UsbIdEntry ⊕ Option (String × String)
  | 0, _, _, fallback => .inr fallback
  | rounds + 1, lo, hi, fallback =>
    if hi < lo then .inr fallback
    else
      let mid := lo + (hi - lo) / 2
      let e := entryAt table mid
      -- 0xFFFF is the largest number here, though it sorts first
      if e.vid < vid ∨ e.vid = vid ∧ e.pid < pid then
        findLoop table vid pid rounds (mid + 1) hi (noteVendor e vid fallback)
      else if e.vid > vid ∨ e.vid = vid ∧ e.pid > pid then
        findLoop table vid pid rounds lo (mid - 1) (noteVendor e vid fallback)
      else .inl e

/-- `usb_id_find`: what it returns, `*vendor_out` and `*product_out`. -/
def usbIdFind (table : List UsbIdEntry) (vid pid : UInt16) : ℤ × String × String :=
  match findLoop table vid pid (table.length + 1) 0 (table.length - 1) none with
  | .inl e => (1, e.vendor, e.product)
  | .inr (some strings) => (0, strings)
  | .inr none =>
    match table.find? fun e => IsVendorOnly e vid with
    | some e => (0, e.vendor, e.product)
    | none => (-1, "Unknown", "USB Device")

/-! ## What a lookup should return -/

def HasEntry (vendors : List UsbVendor) (vid pid : UInt16) : Prop :=
  ∃ e ∈ usbIdTable vendors, e.vid = vid ∧ e.pid = pid

def Knows (vendors : List UsbVendor) (vid : UInt16) : Prop := ∃ v ∈ vendors, v.vid = vid

/-- 1 for an entry, 0 for a vendor of which there is no such entry, and -1 otherwise. -/
structure FindsRight (vendors : List UsbVendor) (vid pid : UInt16)
    (result : ℤ × String × String) : Prop where
  entry_iff : result.1 = 1 ↔ HasEntry vendors vid pid
  entry : result.1 = 1 → ∃ e ∈ usbIdTable vendors, (e.vid = vid ∧ e.pid = pid) ∧
    result.2 = (e.vendor, e.product)
  vendor_iff : result.1 = 0 ↔ ¬ HasEntry vendors vid pid ∧ Knows vendors vid
  vendor : result.1 = 0 → ∃ e ∈ usbIdTable vendors, IsVendorOnly e vid ∧
    result.2 = (e.vendor, e.product)
  unknown : ¬ HasEntry vendors vid pid → ¬ Knows vendors vid → result.1 = -1

/-- The comparison with the place of an entry in the order of the table. -/
def placeCmp (table : List UsbIdEntry) (vid pid : UInt16) (i : ℤ) : Ordering :=
  cmp (entryAt table i).key (sortKey vid pid)

/-- A binary search for the place of the entry looks at no vendor-only entry of its vendor. -/
def AvoidsVendor (vendors : List UsbVendor) (vid pid : UInt16) : Prop :=
  ∀ i ∈ probes (placeCmp (usbIdTable vendors) vid pid) ((usbIdTable vendors).length + 1) 0
    ((usbIdTable vendors).length - 1), ¬ IsVendorOnly (entryAt (usbIdTable vendors) i) vid

/-! ## The table -/

variable {vendors : List UsbVendor} {table : List UsbIdEntry} {vid pid : UInt16} {e : UsbIdEntry}

theorem mem_usbIdTable : e ∈ usbIdTable vendors ↔ ∃ v ∈ vendors, e ∈ v.entries := by
  unfold usbIdTable
  rw [List.mem_insertionSort, List.mem_flatMap]

theorem usbIdTable_sorted (vendors : List UsbVendor) :
    (usbIdTable vendors).Pairwise fun a b => a.key ≤ b.key := by
  have htotal : Std.Total fun a b : UsbIdEntry => a.key ≤ b.key := ⟨fun a b => le_total _ _⟩
  have htrans : IsTrans UsbIdEntry fun a b => a.key ≤ b.key := ⟨fun a b c => le_trans⟩
  exact List.pairwise_insertionSort _ _

/-- Every vendor has its vendor-only entry. -/
theorem knows_iff : Knows vendors vid ↔ ∃ e ∈ usbIdTable vendors, IsVendorOnly e vid := by
  constructor
  · rintro ⟨v, hv, rfl⟩
    exact ⟨_, mem_usbIdTable.mpr ⟨v, hv, List.mem_cons_self⟩, rfl, rfl⟩
  · rintro ⟨e, he, rfl, -⟩
    obtain ⟨v, hv, hmem⟩ := mem_usbIdTable.mp he
    refine ⟨v, hv, ?_⟩
    rcases List.mem_cons.mp hmem with rfl | hmem
    · rfl
    · obtain ⟨d, -, rfl⟩ := List.mem_map.mp hmem
      rfl

theorem entryAt_mem {i : ℤ} (hlo : 0 ≤ i) (hhi : i ≤ table.length - 1) : entryAt table i ∈ table := by
  have hlt : i.toNat < table.length := by omega
  unfold entryAt
  rw [List.getD_eq_getElem _ _ hlt]
  exact List.getElem_mem hlt

theorem exists_entryAt (h : e ∈ table) : ∃ i : ℤ, 0 ≤ i ∧ i ≤ table.length - 1 ∧
    entryAt table i = e := by
  obtain ⟨n, hn, rfl⟩ := List.mem_iff_getElem.mp h
  refine ⟨n, by omega, by omega, ?_⟩
  unfold entryAt
  rw [Int.toNat_natCast, List.getD_eq_getElem _ _ hn]

theorem entryAt_le (h : table.Pairwise fun a b => a.key ≤ b.key) {i j : ℤ} (hi : 0 ≤ i) (hij : i ≤ j)
    (hj : j ≤ table.length - 1) : (entryAt table i).key ≤ (entryAt table j).key := by
  have hlt : i.toNat < table.length := by omega
  have hlt' : j.toNat < table.length := by omega
  unfold entryAt
  rw [List.getD_eq_getElem _ _ hlt, List.getD_eq_getElem _ _ hlt']
  rcases (show i.toNat ≤ j.toNat by omega).lt_or_eq with hlt'' | heq
  · exact List.pairwise_iff_getElem.mp h _ _ hlt hlt' hlt''
  · simp only [heq, le_refl]

theorem placeCmp_ascending (vendors : List UsbVendor) (vid pid : UInt16) :
    Ascending (placeCmp (usbIdTable vendors) vid pid) 0 ((usbIdTable vendors).length - 1) := by
  refine ⟨?_, ?_⟩
  · intro i j hi hij hj hlt
    exact cmp_eq_lt_iff _ _ |>.mpr
      ((entryAt_le (usbIdTable_sorted vendors) hi hij hj).trans_lt ((cmp_eq_lt_iff _ _).mp hlt))
  · intro i j hi hij hj hgt
    exact cmp_eq_gt_iff _ _ |>.mpr
      (((cmp_eq_gt_iff _ _).mp hgt).trans_le (entryAt_le (usbIdTable_sorted vendors) hi hij hj))

/-! ## The search -/

/-- The comparison that `usb_id_find` makes. -/
def searchCmp (table : List UsbIdEntry) (vid pid : UInt16) (i : ℤ) : Ordering :=
  let e := entryAt table i
  if e.vid < vid ∨ e.vid = vid ∧ e.pid < pid then .lt
  else if e.vid > vid ∨ e.vid = vid ∧ e.pid > pid then .gt
  else .eq

theorem sortKey_lt_sortKey {v w p q : UInt16} :
    sortKey v p < sortKey w q ↔ v < w ∨ v = w ∧ (sortKey v p).2 < (sortKey w q).2 := by
  unfold sortKey
  rw [Prod.Lex.toLex_lt_toLex, ← UInt16.lt_iff_toNat_lt, UInt16.toNat_inj]
  exact Iff.rfl

theorem sortKey_snd {v p : UInt16} (h : p ≠ 0xFFFF) : (sortKey v p).2 = p.toNat := if_neg h

theorem sortKey_snd_vendorOnly {v : UInt16} : (sortKey v 0xFFFF).2 = -1 := rfl

/-- A vendor-only entry sorts before the devices but compares as behind them. -/
theorem searchCmp_vendorOnly {i : ℤ} (hpid : pid ≠ 0xFFFF)
    (h : IsVendorOnly (entryAt table i) vid) :
    placeCmp table vid pid i = .lt ∧ searchCmp table vid pid i = .gt := by
  obtain ⟨hvid, hmark⟩ := h
  have hlt := pid.toNat_lt
  have htop : (0xFFFF : UInt16).toNat = 65535 := rfl
  have hne : pid.toNat ≠ 65535 := fun heq => hpid (UInt16.toNat_inj.mp heq)
  constructor
  · unfold placeCmp UsbIdEntry.key
    rw [cmp_eq_lt_iff, sortKey_lt_sortKey, hvid, hmark, sortKey_snd hpid, sortKey_snd_vendorOnly]
    exact Or.inr ⟨rfl, by omega⟩
  · unfold searchCmp
    dsimp only
    rw [hvid, hmark, if_neg, if_pos]
    · refine Or.inr ⟨rfl, ?_⟩
      rw [gt_iff_lt, UInt16.lt_iff_toNat_lt, htop]
      omega
    · rw [UInt16.lt_iff_toNat_lt, UInt16.lt_iff_toNat_lt, htop]
      omega

theorem searchCmp_eq {i : ℤ} (hpid : pid ≠ 0xFFFF) (h : ¬ IsVendorOnly (entryAt table i) vid) :
    searchCmp table vid pid i = placeCmp table vid pid i := by
  have hsnd : ∀ v, (entryAt table i).vid = vid →
      (sortKey v (entryAt table i).pid).2 = (entryAt table i).pid.toNat :=
    fun v hv => sortKey_snd fun hmark => h ⟨hv, hmark⟩
  have hlt : (entryAt table i).key < sortKey vid pid ↔ (entryAt table i).vid < vid ∨
      (entryAt table i).vid = vid ∧ (entryAt table i).pid < pid := by
    unfold UsbIdEntry.key
    rw [sortKey_lt_sortKey]
    apply or_congr_right
    apply and_congr_right
    intro hv
    rw [hsnd _ hv, sortKey_snd hpid, Nat.cast_lt, UInt16.lt_iff_toNat_lt]
  have hgt : sortKey vid pid < (entryAt table i).key ↔ (entryAt table i).vid > vid ∨
      (entryAt table i).vid = vid ∧ (entryAt table i).pid > pid := by
    unfold UsbIdEntry.key
    rw [sortKey_lt_sortKey, eq_comm]
    apply or_congr_right
    apply and_congr_right
    intro hv
    rw [hsnd _ hv, sortKey_snd hpid, Nat.cast_lt, gt_iff_lt, UInt16.lt_iff_toNat_lt]
  unfold searchCmp placeCmp
  dsimp only
  rcases lt_trichotomy (entryAt table i).key (sortKey vid pid) with hcase | hcase | hcase
  · rw [if_pos (hlt.mp hcase), (cmp_eq_lt_iff _ _).mpr hcase]
  · rw [if_neg fun h => hcase.not_lt (hlt.mpr h), if_neg fun h => hcase.not_gt (hgt.mpr h),
      (cmp_eq_eq_iff _ _).mpr hcase]
  · rw [if_neg fun h => hcase.asymm (hlt.mpr h), if_pos (hgt.mp hcase),
      (cmp_eq_gt_iff _ _).mpr hcase]

theorem searchCmp_eq_iff {i : ℤ} (hpid : pid ≠ 0xFFFF) :
    searchCmp table vid pid i = placeCmp table vid pid i ↔
      ¬ IsVendorOnly (entryAt table i) vid := by
  constructor
  · intro heq h
    obtain ⟨hlt, hgt⟩ := searchCmp_vendorOnly hpid h
    rw [hlt, hgt] at heq
    cases heq
  · exact searchCmp_eq hpid

theorem misleads (hpid : pid ≠ 0xFFFF) :
    Misleads (placeCmp table vid pid) (searchCmp table vid pid) := by
  refine ⟨fun i hne => ?_⟩
  rw [Ne, searchCmp_eq_iff hpid, not_not] at hne
  exact searchCmp_vendorOnly hpid hne

theorem searchCmp_eq_eq {i : ℤ} (h : searchCmp table vid pid i = .eq) :
    (entryAt table i).vid = vid ∧ (entryAt table i).pid = pid := by
  unfold searchCmp at h
  dsimp only at h
  by_cases hlt : (entryAt table i).vid < vid ∨
      (entryAt table i).vid = vid ∧ (entryAt table i).pid < pid
  · rw [if_pos hlt] at h
    cases h
  · rw [if_neg hlt] at h
    by_cases hgt : (entryAt table i).vid > vid ∨
        (entryAt table i).vid = vid ∧ (entryAt table i).pid > pid
    · rw [if_pos hgt] at h
      cases h
    · rw [not_or, not_and] at hlt hgt
      have hvid : (entryAt table i).vid = vid := by
        rw [← UInt16.toNat_inj]
        have hle := hlt.1
        have hge := hgt.1
        rw [gt_iff_lt, UInt16.lt_iff_toNat_lt] at hge
        rw [UInt16.lt_iff_toNat_lt] at hle
        omega
      refine ⟨hvid, ?_⟩
      rw [← UInt16.toNat_inj]
      have hle := hlt.2 hvid
      have hge := hgt.2 hvid
      rw [gt_iff_lt, UInt16.lt_iff_toNat_lt] at hge
      rw [UInt16.lt_iff_toNat_lt] at hle
      omega

/-! ## The loop -/

variable {rounds : ℕ} {lo hi : ℤ}

theorem findLoop_empty (h : hi < lo) (fallback : Option (String × String)) :
    findLoop table vid pid rounds lo hi fallback = .inr fallback := by
  cases rounds with
  | zero => rfl
  | succ rounds => exact if_pos h

theorem findLoop_lt (h : lo ≤ hi) (hmid : searchCmp table vid pid (lo + (hi - lo) / 2) = .lt)
    (fallback : Option (String × String)) :
    findLoop table vid pid (rounds + 1) lo hi fallback =
      findLoop table vid pid rounds (lo + (hi - lo) / 2 + 1) hi
        (noteVendor (entryAt table (lo + (hi - lo) / 2)) vid fallback) := by
  rw [findLoop, if_neg (not_lt.mpr h)]
  unfold searchCmp at hmid
  dsimp only at hmid ⊢
  split_ifs at hmid with hlt
  exact if_pos hlt

theorem findLoop_gt (h : lo ≤ hi) (hmid : searchCmp table vid pid (lo + (hi - lo) / 2) = .gt)
    (fallback : Option (String × String)) :
    findLoop table vid pid (rounds + 1) lo hi fallback =
      findLoop table vid pid rounds lo (lo + (hi - lo) / 2 - 1)
        (noteVendor (entryAt table (lo + (hi - lo) / 2)) vid fallback) := by
  rw [findLoop, if_neg (not_lt.mpr h)]
  unfold searchCmp at hmid
  dsimp only at hmid ⊢
  split_ifs at hmid with hlt hgt
  rw [if_neg hlt, if_pos hgt]

theorem findLoop_eq (h : lo ≤ hi) (hmid : searchCmp table vid pid (lo + (hi - lo) / 2) = .eq)
    (fallback : Option (String × String)) :
    findLoop table vid pid (rounds + 1) lo hi fallback =
      .inl (entryAt table (lo + (hi - lo) / 2)) := by
  rw [findLoop, if_neg (not_lt.mpr h)]
  unfold searchCmp at hmid
  dsimp only at hmid ⊢
  split_ifs at hmid with hlt hgt
  rw [if_neg hlt, if_neg hgt]

theorem findLoop_getLeft (table : List UsbIdEntry) (vid pid : UInt16) (rounds : ℕ) (lo hi : ℤ)
    (fallback : Option (String × String)) :
    (findLoop table vid pid rounds lo hi fallback).getLeft? =
      (bisect (searchCmp table vid pid) rounds lo hi).map (entryAt table) := by
  induction rounds generalizing lo hi fallback with
  | zero => rfl
  | succ rounds ih =>
    by_cases hle : lo ≤ hi
    · cases hmid : searchCmp table vid pid (lo + (hi - lo) / 2) with
      | lt =>
        rw [findLoop_lt hle hmid, bisect_lt hle hmid]
        exact ih _ _ _
      | gt =>
        rw [findLoop_gt hle hmid, bisect_gt hle hmid]
        exact ih _ _ _
      | eq =>
        rw [findLoop_eq hle hmid, bisect_eq hle hmid]
        rfl
    · rw [findLoop_empty (not_le.mp hle), bisect_empty (not_le.mp hle)]
      rfl

/-- The strings of a vendor-only entry. -/
def IsVendorStrings (table : List UsbIdEntry) (vid : UInt16) (s : String × String) : Prop :=
  ∃ e ∈ table, IsVendorOnly e vid ∧ s = (e.vendor, e.product)

theorem isVendorStrings_noteVendor {fallback : Option (String × String)}
    (h : ∀ s ∈ fallback, IsVendorStrings table vid s) (he : e ∈ table) :
    ∀ s ∈ noteVendor e vid fallback, IsVendorStrings table vid s := by
  intro s hs
  unfold noteVendor at hs
  by_cases hmark : IsVendorOnly e vid
  · rw [if_pos hmark] at hs
    exact ⟨e, he, hmark, (Option.some.inj hs).symm⟩
  · rw [if_neg hmark] at hs
    exact h s hs

/-- What the loop falls back to was found in a vendor-only entry. -/
theorem findLoop_fallback {fallback : Option (String × String)} {strings : String × String}
    (hlo : 0 ≤ lo) (hhi : hi ≤ table.length - 1)
    (hfallback : ∀ s ∈ fallback, IsVendorStrings table vid s)
    (h : findLoop table vid pid rounds lo hi fallback = .inr (some strings)) :
    IsVendorStrings table vid strings := by
  induction rounds generalizing lo hi fallback with
  | zero => exact hfallback strings (Sum.inr.inj h)
  | succ rounds ih =>
    by_cases hle : lo ≤ hi
    · have hmem : entryAt table (lo + (hi - lo) / 2) ∈ table := entryAt_mem (by omega) (by omega)
      have hnew := isVendorStrings_noteVendor hfallback hmem
      cases hmid : searchCmp table vid pid (lo + (hi - lo) / 2) with
      | lt =>
        rw [findLoop_lt hle hmid] at h
        exact ih (by omega) hhi hnew h
      | gt =>
        rw [findLoop_gt hle hmid] at h
        exact ih hlo (by omega) hnew h
      | eq =>
        rw [findLoop_eq hle hmid] at h
        cases h
    · rw [findLoop_empty (not_le.mp hle)] at h
      exact hfallback strings (Sum.inr.inj h)

/-! ## The lookup -/

/-- The search of `usb_id_find` through the whole table. -/
def found (vendors : List UsbVendor) (vid pid : UInt16) : Option ℤ :=
  bisect (searchCmp (usbIdTable vendors) vid pid) ((usbIdTable vendors).length + 1) 0
    ((usbIdTable vendors).length - 1)

theorem found_mem {i : ℤ} (h : found vendors vid pid = some i) :
    entryAt (usbIdTable vendors) i ∈ usbIdTable vendors ∧
      (entryAt (usbIdTable vendors) i).vid = vid ∧ (entryAt (usbIdTable vendors) i).pid = pid := by
  obtain ⟨hlo, hhi, heq⟩ := bisect_sound h
  exact ⟨entryAt_mem hlo hhi, searchCmp_eq_eq heq⟩

theorem usbIdFind_of_found {i : ℤ} (h : found vendors vid pid = some i) :
    usbIdFind (usbIdTable vendors) vid pid =
      (1, (entryAt (usbIdTable vendors) i).vendor, (entryAt (usbIdTable vendors) i).product) := by
  have hleft := findLoop_getLeft (usbIdTable vendors) vid pid ((usbIdTable vendors).length + 1) 0
    ((usbIdTable vendors).length - 1) none
  rw [show bisect _ _ _ _ = _ from h] at hleft
  rw [usbIdFind, Sum.getLeft?_eq_some_iff.mp hleft]

/-- Without a hit it is all about the vendor. -/
theorem usbIdFind_of_not_found (h : found vendors vid pid = none) :
    (¬ Knows vendors vid ∧ usbIdFind (usbIdTable vendors) vid pid = (-1, "Unknown", "USB Device")) ∨
      ∃ e ∈ usbIdTable vendors, IsVendorOnly e vid ∧
        usbIdFind (usbIdTable vendors) vid pid = (0, e.vendor, e.product) := by
  have hleft := findLoop_getLeft (usbIdTable vendors) vid pid ((usbIdTable vendors).length + 1) 0
    ((usbIdTable vendors).length - 1) none
  rw [show bisect _ _ _ _ = _ from h] at hleft
  obtain ⟨fallback, hloop⟩ := Sum.isRight_iff.mp (Sum.getLeft?_eq_none_iff.mp hleft)
  unfold usbIdFind
  rw [hloop]
  cases fallback with
  | some strings =>
    right
    obtain ⟨e, he, hmark, rfl⟩ := findLoop_fallback le_rfl le_rfl (fun s hs => by cases hs) hloop
    exact ⟨e, he, hmark, rfl⟩
  | none =>
    dsimp only
    cases hscan : (usbIdTable vendors).find? fun e => IsVendorOnly e vid with
    | some e =>
      right
      have hmark := List.find?_some hscan
      exact ⟨e, List.mem_of_find?_eq_some hscan, of_decide_eq_true hmark, rfl⟩
    | none =>
      refine Or.inl ⟨fun hknows => ?_, rfl⟩
      obtain ⟨e, he, hmark⟩ := knows_iff.mp hknows
      exact List.find?_eq_none.mp hscan e he (decide_eq_true hmark)

/-- The lookup is right if it finds the entries that are there. -/
theorem findsRight_iff : FindsRight vendors vid pid (usbIdFind (usbIdTable vendors) vid pid) ↔
    (HasEntry vendors vid pid → (found vendors vid pid).isSome) := by
  cases hfound : found vendors vid pid with
  | some i =>
    obtain ⟨hmem, hentry⟩ := found_mem hfound
    have hhas : HasEntry vendors vid pid := ⟨_, hmem, hentry⟩
    rw [usbIdFind_of_found hfound]
    refine iff_of_true ?_ fun _ => rfl
    exact ⟨iff_of_true rfl hhas, fun _ => ⟨_, hmem, hentry, rfl⟩,
      iff_of_false Int.one_ne_zero fun h => h.1 hhas, fun h => absurd h Int.one_ne_zero,
      fun h => absurd hhas h⟩
  | none =>
    constructor
    · intro hright hhas
      have hone := hright.entry_iff.mpr hhas
      rcases usbIdFind_of_not_found hfound with ⟨-, heq⟩ | ⟨e, -, -, heq⟩
      · rw [heq] at hone
        exact absurd hone (by decide)
      · rw [heq] at hone
        exact absurd hone Int.zero_ne_one
    · intro hnone
      have hhas : ¬ HasEntry vendors vid pid := fun h => absurd (hnone h) (by decide)
      rcases usbIdFind_of_not_found hfound with ⟨hknows, heq⟩ | ⟨e, he, hmark, heq⟩
      · rw [heq]
        exact ⟨iff_of_false (by decide) hhas, fun h => absurd h (by decide),
          iff_of_false (by decide) fun h => hknows h.2, fun h => absurd h (by decide),
          fun _ _ => rfl⟩
      · have hknows : Knows vendors vid := knows_iff.mpr ⟨e, he, hmark⟩
        rw [heq]
        exact ⟨iff_of_false Int.zero_ne_one hhas, fun h => absurd h Int.zero_ne_one,
          iff_of_true rfl ⟨hhas, hknows⟩, fun _ => ⟨e, he, hmark, rfl⟩,
          fun _ h => absurd hknows h⟩

theorem found_isSome_iff (hpid : pid ≠ 0xFFFF) (h : HasEntry vendors vid pid) :
    (found vendors vid pid).isSome ↔ AvoidsVendor vendors vid pid := by
  obtain ⟨e, he, rfl, rfl⟩ := h
  obtain ⟨k, hlo, hhi, rfl⟩ := exists_entryAt he
  have hk : placeCmp (usbIdTable vendors) (entryAt (usbIdTable vendors) k).vid
      (entryAt (usbIdTable vendors) k).pid k = .eq := cmp_self_eq_eq _
  unfold found AvoidsVendor
  rw [(misleads hpid).isSome_iff (placeCmp_ascending vendors _ _) hlo hhi hk (by omega)]
  exact forall₂_congr fun i _ => searchCmp_eq_iff hpid

/-- A lookup is right exactly when there is no such entry or the search for it looks at no
vendor-only entry of its vendor. -/
theorem usb_id_find_right_iff (vendors : List UsbVendor) (vid : UInt16) {pid : UInt16}
    (hpid : pid ≠ 0xFFFF) :
    FindsRight vendors vid pid (usbIdFind (usbIdTable vendors) vid pid) ↔
      (HasEntry vendors vid pid → AvoidsVendor vendors vid pid) := by
  rw [findsRight_iff]
  exact forall_congr' fun h => found_isSome_iff hpid h

/-- A vendor with two devices: the search for the first one looks at it at once. -/
theorem usb_id_find_right_iff_two :
    FindsRight [⟨1, "V", [(1, "A"), (2, "B")]⟩] 1 1
      (usbIdFind (usbIdTable [⟨1, "V", [(1, "A"), (2, "B")]⟩]) 1 1) :=
  (usb_id_find_right_iff _ 1 (by decide)).mpr fun _ => by
    unfold AvoidsVendor
    decide +kernel

/-- A vendor with one device. -/
theorem single_device_missed :
    ¬ ∀ (vendors : List UsbVendor) (vid pid : UInt16), pid ≠ 0xFFFF →
      FindsRight vendors vid pid (usbIdFind (usbIdTable vendors) vid pid) := by
  intro hall
  have hright := hall [⟨1, "V", [(1, "A")]⟩] 1 1 (by decide)
  have hone := hright.entry_iff.mpr ⟨⟨1, 1, "V", "A"⟩, by decide +kernel, rfl, rfl⟩
  revert hone
  decide +kernel

end Rhoudveine.UsbIds
