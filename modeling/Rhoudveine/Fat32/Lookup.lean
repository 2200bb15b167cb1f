import Rhoudveine.Fat32.LongNames
import Rhoudveine.Fat32.ShortNames

/-!
# Looking up what is listed

`fat32_finddir` asked for a name that `fat32_readdir` has given.
-/

namespace Rhoudveine.Fat32
open Fs Mm

/-! ## The entries of a directory -/

structure DirEntry where
  record : Record
  long : Option LongName

/-- A deleted long-name record or a volume label. -/
def Skipped (r : Record) : Prop :=
  Named r = false ∧ (r.attr &&& attrLfn = attrLfn → Deleted r = true)

/-- The records of a directory whose long names stand in front of their own records. -/
inductive WellFormed : List Record → List DirEntry → Prop
  | nil : WellFormed [] []
  | skip {r : Record} {rs : List Record} {es : List DirEntry} :
    Skipped r → WellFormed rs es → WellFormed (r :: rs) es
  | short {r : Record} {rs : List Record} {es : List DirEntry} :
    Named r = true → WellFormed rs es → WellFormed (r :: rs) (⟨r, none⟩ :: es)
  | long {l : LongName} {set : List Record} {r : Record} {rs : List Record}
    {es : List DirEntry} : l.Parts r l.parts set → Named r = true → Deleted r = false →
    WellFormed rs es → WellFormed (set ++ r :: rs) (⟨r, some l⟩ :: es)

/-- The name that the node for an entry gets. -/
def DirEntry.listedName (e : DirEntry) : Str :=
  match e.long with
  | some l => l.text.take 127
  | none => fat32ToNormalName e.record

/-! ## What a scan has read at an entry -/

variable {r : Record} {rs set : List Record} {es : List DirEntry} {e : DirEntry} {lfn : Lfn}
  {hit : Record × Lfn} {name : Str}

/-- The state belongs to no record. -/
def NoName (lfn : Lfn) : Prop := lfn.buf 0 = 0 ∨ lfn.checksum = -1

theorem NoName.not_valid (h : NoName lfn) (r : Record) : ¬ lfn.Valid r := by
  intro hvalid
  rcases h with h | h
  · exact hvalid.1 h
  · have hsum := hvalid.2
    rw [h] at hsum
    omega

/-- The number of a deleted long-name record is out of range, and its bit 6 is set. -/
theorem noName_deleted (h : Deleted r = true) (lfn : Lfn) : NoName (lfn.add r) := by
  left
  have hr : r 0 = 0xE5 := of_decide_eq_true h
  unfold Lfn.add
  rw [hr]
  rfl

/-- What a scan has read at an entry. -/
structure EntryRead (hit : Record × Lfn) (e : DirEntry) : Prop where
  record : hit.1 = e.record
  short : e.long = none → ¬ hit.2.Valid hit.1
  long : ∀ l, e.long = some l → hit.2.Valid hit.1 ∧ hit.2.name = l.text.take 247

theorem scanned_set (h : ∀ p ∈ set, p 0 ≠ 0 ∧ p.attr &&& attrLfn = attrLfn) (lfn : Lfn) :
    scanned (set ++ rs) lfn = scanned rs (set.foldl Lfn.add lfn) := by
  induction set generalizing lfn with
  | nil => rfl
  | cons p set ih =>
    obtain ⟨hfirst, hattr⟩ := h p List.mem_cons_self
    rw [List.cons_append, scanned, if_neg hfirst, if_pos hattr]
    exact ih (fun q hq => h q (List.mem_cons_of_mem p hq)) _

theorem scanned_named (hfirst : r 0 ≠ 0) (hnamed : Named r = true) (lfn : Lfn) :
    scanned (r :: rs) lfn = (r, lfn) :: scanned rs .clear := by
  have hlfn : ¬ r.attr &&& attrLfn = attrLfn := by
    intro h
    rw [not_named_of_lfn h] at hnamed
    cases hnamed
  have hvolume : r.attr &&& attrVolumeId = 0 := of_decide_eq_true hnamed
  rw [scanned, if_neg hfirst, if_neg hlfn, if_neg (not_not.mpr hvolume)]

theorem LongName.Parts.lfnRecords {l : LongName} {k : ℕ} (h : l.Parts r k set) (hk : k ≤ l.parts) :
    ∀ p ∈ set, p 0 ≠ 0 ∧ p.attr &&& attrLfn = attrLfn := by
  induction h with
  | done => simp
  | next hpart _ ih =>
    intro p hp
    rcases List.mem_cons.mp hp with rfl | hp
    · exact ⟨hpart.first_ne_zero hk, hpart.attr⟩
    · exact ih (Nat.le_of_succ_le hk) p hp

theorem scanned_entries (h : WellFormed rs es) (hne : ∀ r ∈ rs, r 0 ≠ 0) (hlfn : NoName lfn) :
    List.Forall₂ EntryRead (scanned rs lfn) es := by
  have hclear : NoName .clear := .inl rfl
  induction h generalizing lfn with
  | nil => exact .nil
  | @skip r rs es hr _ ih =>
    obtain ⟨hfirst, hrest⟩ := List.forall_mem_cons.mp hne
    rw [scanned, if_neg hfirst]
    split
    · rename_i hattr
      exact ih hrest (noName_deleted (hr.2 hattr) lfn)
    · rw [if_pos (of_decide_eq_false hr.1)]
      exact ih hrest (.inr rfl)
  | @short r rs es hnamed _ ih =>
    obtain ⟨hfirst, hrest⟩ := List.forall_mem_cons.mp hne
    rw [scanned_named hfirst hnamed]
    apply List.Forall₂.cons _ (ih hrest hclear)
    exact ⟨rfl, fun _ => hlfn.not_valid r, by simp⟩
  | @long l set r rs es hset hnamed _ _ ih =>
    obtain ⟨hfirst, hrest⟩ := List.forall_mem_cons.mp (List.forall_mem_append.mp hne).2
    rw [scanned_set (hset.lfnRecords le_rfl), scanned_named hfirst hnamed]
    apply List.Forall₂.cons _ (ih hrest hclear)
    have hread := hset.read lfn
    refine ⟨rfl, by simp, ?_⟩
    rintro _ ⟨⟩
    exact ⟨hread.valid, hread.name⟩

theorem scanned_beforeEnd (rs : List Record) (lfn : Lfn) :
    scanned (beforeEnd rs) lfn = scanned rs lfn := by
  induction rs generalizing lfn with
  | nil => rfl
  | cons r rs ih =>
    unfold beforeEnd at ih ⊢
    by_cases hr : r 0 = 0
    · simp [scanned, hr]
    · rw [List.takeWhile_cons_of_pos (by simpa using hr), scanned, scanned]
      simp only [ih]

/-- The entries that the two scans go through. -/
theorem scanned_read (h : WellFormed (beforeEnd rs) es) :
    List.Forall₂ EntryRead (scanned rs .clear) es := by
  rw [← scanned_beforeEnd]
  apply scanned_entries h _ (.inl rfl)
  intro r hr
  simpa using List.mem_takeWhile_imp hr

theorem EntryRead.nodeName (h : EntryRead hit e) : nodeName hit = e.listedName := by
  obtain ⟨record, long⟩ := e
  obtain ⟨rfl, hshort, hlong⟩ := h
  unfold Fat32.nodeName DirEntry.listedName
  cases long with
  | none => exact if_neg (hshort rfl)
  | some l =>
    obtain ⟨hvalid, hname⟩ := hlong l rfl
    rw [if_pos hvalid, hname]
    exact List.take_take.trans rfl

/-! ## Names -/

/-- The same text, whatever the case. -/
def SameText (s t : Str) : Prop := s.map toUpper = t.map toUpper

/-- Two strings that `my_strcasecmp` takes for equal. -/
theorem myStrcasecmp_eq_zero {s t : Str} (hs : ∀ c ∈ s, c ≠ 0) (ht : ∀ c ∈ t, c ≠ 0) :
    myStrcasecmp s t = 0 ↔ SameText s t := by
  have hzero {c : UInt8} (hc : c ≠ 0) : charValue c ≠ 0 := fun h => hc ((charValue_eq_zero c).mp h)
  unfold SameText
  induction s generalizing t with
  | nil =>
    cases t with
    | nil => exact iff_of_true rfl rfl
    | cons d t =>
      apply iff_of_false
      · exact neg_ne_zero.mpr (hzero (ht d List.mem_cons_self))
      · simp
  | cons c s ih =>
    cases t with
    | nil =>
      apply iff_of_false
      · exact hzero (hs c List.mem_cons_self)
      · simp
    | cons d t =>
      obtain ⟨-, hs⟩ := List.forall_mem_cons.mp hs
      obtain ⟨-, ht⟩ := List.forall_mem_cons.mp ht
      rw [myStrcasecmp, List.map_cons, List.map_cons, List.cons.injEq]
      by_cases hcd : toUpper c = toUpper d
      · have hrest : myStrcasecmp s t = 0 ↔ s.map toUpper = t.map toUpper := ih hs ht
        rw [if_neg (not_not.mpr hcd), hrest]
        exact (and_iff_right hcd).symm
      · rw [if_pos hcd]
        apply iff_of_false _ fun h => hcd h.1
        intro h
        apply hcd
        have hvalue : charValue (toUpper c) = charValue (toUpper d) := sub_eq_zero.mp h
        exact congrArg Int8.toUInt8 (Int8.toInt_inj.mp hvalue)

theorem SameText.length {s t : Str} (h : SameText s t) : s.length = t.length := by
  have hlen := congrArg List.length h
  rwa [List.length_map, List.length_map] at hlen

/-- The entry has the name, as the driver reads its names. -/
def DirEntry.ReadAs (e : DirEntry) (name : Str) : Prop :=
  (∃ l, e.long = some l ∧ SameText name l.text) ∨ SameText name (fat32ToNormalName e.record)

theorem normalName_ne_zero (r : Record) : ∀ c ∈ fat32ToNormalName r, c ≠ 0 := by
  intro c hc
  simpa using List.mem_takeWhile_imp hc

theorem length_namePart_le (r : Record) (start len : ℕ) : (namePart r start len).length ≤ len := by
  have htake := (List.takeWhile_sublist (l := (List.range len).map fun i => r (start + i))
    fun c => decide (c ≠ space)).length_le
  rw [namePart, List.length_map]
  rwa [List.length_map, List.length_range] at htake

theorem length_normalName_le (r : Record) : (fat32ToNormalName r).length ≤ 12 := by
  have hbase := length_namePart_le r 0 8
  have hext := length_namePart_le r 8 3
  apply (List.takeWhile_sublist _).length_le.trans
  rw [List.length_append]
  split
  · rw [List.length_cons]
    omega
  · rw [List.length_nil]
    omega

/-- The test of `fat32_finddir` for a name that fits into the buffer. -/
theorem EntryRead.nameMatches (h : EntryRead hit e) (hname : ∀ c ∈ name, c ≠ 0)
    (hlength : name.length < 247) :
    nameMatches name hit.2 hit.1 = true ↔ e.ReadAs name := by
  have hshort := myStrcasecmp_eq_zero hname (normalName_ne_zero e.record)
  unfold Fat32.nameMatches DirEntry.ReadAs
  rw [Bool.or_eq_true, decide_eq_true_iff, h.record, hshort, ← h.record]
  apply or_congr_left
  rw [Bool.and_eq_true, decide_eq_true_iff, decide_eq_true_iff]
  cases hlong : e.long with
  | none =>
    apply iff_of_false
    · exact fun hboth => h.short hlong hboth.1
    · simp
  | some l =>
    obtain ⟨hvalid, hbuf⟩ := h.long l hlong
    have htext : ∀ c ∈ l.text.take 247, c ≠ 0 := fun c hc =>
      l.text_ne_zero c (List.mem_of_mem_take hc)
    rw [hbuf, myStrcasecmp_eq_zero hname htext, and_iff_right hvalid]
    constructor
    · intro hsame
      refine ⟨l, rfl, ?_⟩
      have hlen := hsame.length
      rw [List.length_take] at hlen
      rwa [List.take_of_length_le (by omega)] at hsame
    · rintro ⟨_, ⟨⟩, hsame⟩
      have hlen := hsame.length
      rwa [List.take_of_length_le (by omega)]

/-! ## Names on the disk -/

def upperUnit (u : UInt16) : UInt16 := if 0x61 ≤ u ∧ u ≤ 0x7A then u - 32 else u

/-- The text of an 11-byte name: both parts without the spaces that fill them. -/
def shortText (r : Record) : Str :=
  ((List.range 8).map r).rdropWhile (· = space) ++
    suffixed (((List.range 3).map fun i => r (8 + i)).rdropWhile (· = space))

/-- The long or the short name on the disk is `name`, whatever the case. -/
def DirEntry.HasName (e : DirEntry) (name : Str) : Prop :=
  (∃ l, e.long = some l ∧
    name.map (fun c => upperUnit c.toUInt16) = l.units.map upperUnit) ∨
  SameText name (shortText e.record)

/-- The driver does not read the names as they are on the disk: the long name has a unit outside
ASCII, which becomes a question mark, or the short one is cut at a space or a zero. -/
def DirEntry.Lossy (e : DirEntry) : Prop :=
  (∃ l, e.long = some l ∧ ∃ u ∈ l.units, 0x80 ≤ u) ∨
    ¬ SameText (fat32ToNormalName e.record) (shortText e.record)

theorem upperUnit_toUInt16 (c : UInt8) : upperUnit c.toUInt16 = (toUpper c).toUInt16 := by
  revert c
  decide +kernel

theorem toUInt16_asciiOf {u : UInt16} (hu : u < 0x80) : (asciiOf u).toUInt16 = u := by
  have hlt : u.toNat < 128 := UInt16.lt_iff_toNat_lt.mp hu
  rw [asciiOf, if_pos hu]
  apply UInt16.toNat_inj.mp
  rw [UInt8.toNat_toUInt16, UInt16.toNat_toUInt8, Nat.mod_eq_of_lt (by omega)]

theorem upperUnit_text {l : LongName} (h : ∀ u ∈ l.units, u < 0x80) :
    l.text.map (fun c => upperUnit c.toUInt16) = l.units.map upperUnit := by
  rw [LongName.text, List.map_map]
  apply List.map_congr_left
  intro u hu
  rw [Function.comp_apply, toUInt16_asciiOf (h u hu)]

/-- Without loss, what is read as `name` has that name. -/
theorem DirEntry.ReadAs.hasName (h : e.ReadAs name) (hlossy : ¬ e.Lossy) : e.HasName name := by
  unfold DirEntry.Lossy at hlossy
  push Not at hlossy
  obtain ⟨hlong, hshort⟩ := hlossy
  rcases h with ⟨l, hl, hsame⟩ | hsame
  · have hascii : ∀ u ∈ l.units, u < 0x80 := fun u hu => by simpa using hlong l hl u hu
    refine .inl ⟨l, hl, ?_⟩
    have hunits := congrArg (List.map UInt8.toUInt16) hsame
    rw [List.map_map, List.map_map] at hunits
    rw [← upperUnit_text hascii]
    simp only [upperUnit_toUInt16]
    exact hunits
  · exact .inr (hsame.trans hshort)

/-! ## The entries that answer to a listed name -/

/-- No other live entry has the name. -/
def Alone (es : List DirEntry) (i : ℕ) (name : Str) : Prop :=
  ∀ j (hj : j < es.length), j ≠ i → Deleted es[j].record = false → ¬ es[j].HasName name

/-- Entry `j` answers to the name under which entry `i` is listed: it is the entry itself, unless
its long name was cut to 127 characters, or another one that is deleted, or whose name is not read
as it is on the disk. -/
def Answers (es : List DirEntry) (i j : Fin es.length) : Prop :=
  (j = i ∧ ∀ l, es[i].long = some l → l.units.length ≤ 127) ∨
    j ≠ i ∧ (Deleted es[j].record = true ∨ es[j].Lossy) ∧ es[j].ReadAs es[i].listedName

/-- The first entry with a property. -/
def First {es : List DirEntry} (p : Fin es.length → Prop) (j : Fin es.length) : Prop :=
  p j ∧ ∀ k < j, ¬ p k

/-- The fields that the two calls copy into a node. -/
structure SameFile (r r' : Record) : Prop where
  firstCluster : r.firstCluster = r'.firstCluster
  fileSize : r.fileSize = r'.fileSize
  directory : r.attr &&& attrDirectory ≠ 0 ↔ r'.attr &&& attrDirectory ≠ 0

theorem listedName_ne_zero (e : DirEntry) : ∀ c ∈ e.listedName, c ≠ 0 := by
  intro c hc
  unfold DirEntry.listedName at hc
  split at hc
  · exact LongName.text_ne_zero _ c (List.mem_of_mem_take hc)
  · exact normalName_ne_zero _ c hc

theorem length_listedName_le (e : DirEntry) : e.listedName.length ≤ 127 := by
  unfold DirEntry.listedName
  split
  · rw [List.length_take]
    omega
  · have hle := length_normalName_le e.record
    omega

/-- An entry is read under the name it is listed under unless the long name was cut. -/
theorem readAs_listedName (e : DirEntry) :
    e.ReadAs e.listedName ↔ ∀ l, e.long = some l → l.units.length ≤ 127 := by
  obtain ⟨record, long⟩ := e
  unfold DirEntry.ReadAs DirEntry.listedName
  cases long with
  | none => exact iff_of_true (.inr rfl) (by simp)
  | some l =>
    have hlen := l.length_text
    constructor
    · rintro h _ ⟨⟩
      rcases h with ⟨_, ⟨⟩, hsame⟩ | hsame
      · have htake := hsame.length
        rw [List.length_take] at htake
        omega
      · have htake := hsame.length
        have hle := length_normalName_le record
        rw [List.length_take] at htake
        dsimp only at htake
        omega
    · intro h
      have hle := h l rfl
      refine .inl ⟨l, rfl, ?_⟩
      dsimp only
      rw [List.take_of_length_le (by omega)]
      rfl

theorem answers_iff {i : Fin es.length} (h : Alone es i es[i].listedName) (j : Fin es.length) :
    es[j].ReadAs es[i].listedName ↔ Answers es i j := by
  unfold Answers
  by_cases hij : j = i
  · subst hij
    rw [readAs_listedName]
    simp
  · have hne : j.val ≠ i.val := fun hval => hij (Fin.ext hval)
    constructor
    · intro hread
      refine .inr ⟨hij, ?_, hread⟩
      by_contra hnot
      push Not at hnot
      exact h j j.isLt hne (by simpa using hnot.1) (hread.hasName hnot.2)
    · rintro (⟨hself, -⟩ | ⟨-, -, hread⟩)
      · exact absurd hself hij
      · exact hread

/-! ## The two calls -/

/-- The node for an entry, under the name the entry is listed under. -/
structure ListedNode (dir : NodeData) (e : DirEntry) (node : Node) : Prop
    extends NodeFor dir e.record node where
  name : node.name = e.listedName

theorem EntryNode.listed {dir : NodeData} {node : Node} (h : EntryNode dir hit node)
    (hread : EntryRead hit e) : ListedNode dir e node := by
  constructor
  · rw [← hread.record]
    exact h.toNodeFor
  · rw [← hread.nodeName]
    exact h.name

/-- Two nodes of one directory agree where their records do. -/
theorem sameFile_iff {dir : NodeData} {r r' : Record} {node node' : Node} (h : NodeFor dir r node)
    (h' : NodeFor dir r' node') :
    node.data = node'.data ∧ node.size = node'.size ∧ node.flags = node'.flags ↔
      SameFile r r' := by
  rw [h.data, h'.data, h.size, h'.size, h.flags, h'.flags]
  have hne : vfsDirectory ≠ vfsFile := by decide
  constructor
  · rintro ⟨hdata, hsize, hflags⟩
    have hcluster : r.firstCluster = r'.firstCluster :=
      congrArg NodeData.firstCluster (Option.some.inj hdata)
    refine ⟨hcluster, hsize, ?_⟩
    by_cases hr : r.attr &&& attrDirectory ≠ 0
    · by_cases hr' : r'.attr &&& attrDirectory ≠ 0
      · exact iff_of_true hr hr'
      · rw [if_pos hr, if_neg hr'] at hflags
        exact absurd hflags hne
    · by_cases hr' : r'.attr &&& attrDirectory ≠ 0
      · rw [if_neg hr, if_pos hr'] at hflags
        exact absurd hflags.symm hne
      · exact iff_of_false hr hr'
  · intro h
    refine ⟨by rw [h.firstCluster], h.fileSize, ?_⟩
    simp only [h.directory]

variable {dev : Device} {st vol : Volume} {fuel : ℕ} {node : Node} {dir : NodeData}
  {chain : List UInt32}

theorem fat32Readdir_entry (hok : ∀ n, dev.ok n = true) (hmounted : Mounted st.fs)
    (hroom : ThreeFree st.pfa) (hdata : node.data = some dir)
    (hchain : IsChain st dir.firstCluster chain) (hfuel : chain.length < fuel)
    (hes : WellFormed (beforeEnd (dirRecords st chain)) es) (index : UInt32) :
    ∃ child st', fat32Readdir dev fuel st node index = some (child, st') ∧
      Option.Rel (ListedNode dir) es[index.toNat]? child := by
  obtain ⟨child, st', hscan, -, hrel⟩ :=
    @fat32Scan_spec (fun seen _ _ => seen = index) dev st (fun _ _ _ _ _ => rfl) hok hmounted hroom
      fuel node dir hdata chain hchain hfuel
  refine ⟨child, st', hscan, ?_⟩
  rw [scanList_index] at hrel
  have hread := scanned_read hes
  by_cases hindex : index.toNat < es.length
  · have hindex' : index.toNat < (scanned (dirRecords st chain) .clear).length := by
      rwa [hread.length_eq]
    rw [List.getElem?_eq_getElem hindex'] at hrel
    rw [List.getElem?_eq_getElem hindex]
    cases hrel with
    | some hnode => exact .some (hnode.listed (hread.get hindex' hindex))
  · have hindex' : ¬ index.toNat < (scanned (dirRecords st chain) .clear).length := by
      rwa [hread.length_eq]
    rw [List.getElem?_eq_none (not_lt.mp hindex')] at hrel
    rw [List.getElem?_eq_none (not_lt.mp hindex)]
    cases hrel
    exact .none

theorem fat32Finddir_entry (hok : ∀ n, dev.ok n = true) (hmounted : Mounted st.fs)
    (hroom : ThreeFree st.pfa) (hdata : node.data = some dir)
    (hchain : IsChain st dir.firstCluster chain) (hfuel : chain.length < fuel)
    (hes : WellFormed (beforeEnd (dirRecords st chain)) es) (hname : ∀ c ∈ name, c ≠ 0)
    (hlength : name.length < 247) :
    ∃ child st', fat32Finddir dev fuel st node name = some (child, st') ∧
      (child = none → ∀ j : Fin es.length, ¬ es[j].ReadAs name) ∧
      ∀ found, child = some found →
        ∃ j, First (fun k : Fin es.length => es[k].ReadAs name) j ∧
          NodeFor dir es[j].record found := by
  obtain ⟨child, st', hscan, -, hrel⟩ :=
    fat32Scan_spec (fun _ lfn _ _ hr => hr.nameMatches name lfn) hok hmounted hroom hdata hchain
      hfuel
  refine ⟨child, st', hscan, ?_⟩
  rw [scanList_find] at hrel
  have hread := scanned_read hes
  have htest (k : ℕ) (hk : k < (scanned (dirRecords st chain) .clear).length)
      (hk' : k < es.length) := (hread.get hk hk').nameMatches hname hlength
  generalize scanned (dirRecords st chain) .clear = hits at hrel hread htest
  generalize hfind : hits.find? (fun hit => nameMatches name hit.2 hit.1) = found at hrel
  cases hrel with
  | none =>
    refine ⟨fun _ j => ?_, by simp⟩
    have hj : j.val < hits.length := by
      rw [hread.length_eq]
      exact j.isLt
    have hno := List.find?_eq_none.mp hfind hits[j.val] (List.getElem_mem hj)
    exact fun h => hno ((htest j hj j.isLt).mpr h)
  | @some hit node hnode =>
    refine ⟨by simp, ?_⟩
    rintro _ ⟨⟩
    obtain ⟨htrue, j, hj, rfl, hbefore⟩ := List.find?_eq_some_iff_getElem.mp hfind
    have hj' : j < es.length := by rwa [← hread.length_eq]
    refine ⟨⟨j, hj'⟩, ⟨(htest j hj hj').mp htrue, fun k hk h => ?_⟩, ?_⟩
    · have hk' : k.val < hits.length := lt_trans hk hj
      have hyes : nameMatches name hits[k.val].2 hits[k.val].1 = true :=
        (htest k hk' k.isLt).mpr h
      have hno := hbefore k hk
      rw [hyes] at hno
      cases hno
    · exact (hnode.listed (hread.get hj hj')).toNodeFor

/-! ## Listing and lookup -/

/-- `fat32_finddir`, asked for the name of what `fat32_readdir` has returned for an index, returns
a node like it, unless another live entry has that name. -/
def FindsListed (dev : Device) (fuel : ℕ) (vol : Volume) (node : Node) (es : List DirEntry)
    (index : UInt32) : Prop :=
  ∀ st child st', SameVolume vol st → ThreeFree st.pfa →
    fat32Readdir dev fuel st node index = some (some child, st') →
    Alone es index.toNat child.name →
    ∀ t, SameVolume vol t → ThreeFree t.pfa → ∃ found t',
      fat32Finddir dev fuel t node child.name = some (some found, t') ∧
        found.data = child.data ∧ found.size = child.size ∧ found.flags = child.flags

theorem First.unique {p : Fin es.length → Prop} {j k : Fin es.length} (hj : First p j)
    (hk : First p k) : j = k := by
  apply le_antisymm
  · exact not_lt.mp fun h => hj.2 k h hk.1
  · exact not_lt.mp fun h => hk.2 j h hj.1

theorem first_congr {p q : Fin es.length → Prop} (h : ∀ j, p j ↔ q j) {j : Fin es.length} :
    First p j ↔ First q j := by
  have hpq : p = q := funext fun j => propext (h j)
  rw [hpq]

theorem beforeEnd_cluster (st : Volume) (c : UInt32) :
    beforeEnd (dirRecords st [c]) =
      ((List.range st.fs.bs.entriesPerCluster.toNat).takeWhile fun j =>
        decide (st.disk (clusterStart st.fs c + 32 * j) ≠ 0)).map
          (recordAt fun i => st.disk (clusterStart st.fs c + i)) := by
  have hone : dirRecords st [c] = clusterRecords st c := List.append_nil _
  rw [hone, beforeEnd, clusterRecords, List.takeWhile_map]
  rfl

def fileEntry : DirEntry := ⟨recordAt (fun i => (fileVolume 0x41).2.2.disk (1024 + i)) 0, none⟩

theorem wellFormed_fileVolume :
    WellFormed (beforeEnd (dirRecords (fileVolume 0x41).2.2 [2])) [fileEntry] := by
  have hindices : ((List.range (fileVolume 0x41).2.2.fs.bs.entriesPerCluster.toNat).takeWhile
      fun j => decide ((fileVolume 0x41).2.2.disk
        (clusterStart (fileVolume 0x41).2.2.fs 2 + 32 * j) ≠ 0)) = [0] := by decide +kernel
  have hstart : clusterStart (fileVolume 0x41).2.2.fs 2 = 1024 := by decide +kernel
  rw [beforeEnd_cluster, hindices, hstart]
  apply WellFormed.short _ .nil
  decide +kernel

/-- 128 times the letter `a`. -/
def longA : LongName where
  units := List.replicate 128 0x61
  pos := by rw [List.length_replicate]; norm_num
  le := by rw [List.length_replicate]; norm_num
  nonzero := by
    intro u hu
    rw [List.eq_of_mem_replicate hu]
    decide

/-- Byte `b` of record `j` of a directory with one file, `A` for short. -/
def longByte (j b : ℕ) : UInt8 :=
  if j = 10 then if b = 0 then 0x41 else if b < 11 then 0x20 else 0
  else if b = 0 then if j = 0 then 0x4A else UInt8.ofNat (10 - j)
  else if b = 11 then attrLfn
  else if b = 13 then 0x80
  else if b = 12 ∨ b = 26 ∨ b = 27 then 0
  else if j = 0 ∧ 28 ≤ b then if b < 30 then 0 else 0xFF
  else if b < 11 then if b % 2 = 1 then 0x61 else 0
  else if b % 2 = 0 then 0x61 else 0

/-- `smallDisk` with that file in its root directory. -/
def longDisk (a : ℕ) : UInt8 :=
  if 1024 ≤ a ∧ a < 1376 then longByte ((a - 1024) / 32) ((a - 1024) % 32) else smallDisk 1 a

def longVolume : ℤ × Option Node × Volume := fat32Mount goodDevice (unmounted longDisk) none

def longRoot : Node := longVolume.2.1.getD ⟨0, [], 0, 0, 0, none⟩

def longRecord (j : ℕ) : Record := recordAt (fun i => longVolume.2.2.disk (1024 + i)) j

theorem parts_longA : longA.parts = 10 := by decide +kernel

theorem longA_set : longA.Parts (longRecord 10) longA.parts ((List.range 10).map longRecord) := by
  have hattr : ∀ j < 10, (longRecord j).attr &&& attrLfn = attrLfn := by decide +kernel
  have horder : ∀ j < 10,
      longRecord j 0 = UInt8.ofNat (10 - j) ||| if 10 - j = 10 then 0x40 else 0 := by
    decide +kernel
  have hsum : ∀ j < 10, longRecord j 13 = (longRecord 10).checksum := by decide +kernel
  have hunits : ∀ j < 10, ∀ i < 13,
      (longRecord j).unit i = longA.stored (13 * (10 - j - 1) + i) := by
    decide +kernel
  rw [parts_longA]
  apply LongName.parts_map
  intro j hj
  refine ⟨hattr j hj, ?_, hsum j hj, hunits j hj⟩
  rw [parts_longA]
  exact horder j hj

def longEntry : DirEntry := ⟨longRecord 10, some longA⟩

theorem wellFormed_longVolume :
    WellFormed (beforeEnd (dirRecords longVolume.2.2 [2])) [longEntry] := by
  have hindices : ((List.range longVolume.2.2.fs.bs.entriesPerCluster.toNat).takeWhile fun j =>
      decide (longVolume.2.2.disk (clusterStart longVolume.2.2.fs 2 + 32 * j) ≠ 0)) =
        List.range 10 ++ [10] := by decide +kernel
  have hstart : clusterStart longVolume.2.2.fs 2 = 1024 := by decide +kernel
  rw [beforeEnd_cluster, hindices, hstart, List.map_append]
  have hnamed : Named (longRecord 10) = true := by decide +kernel
  have hlive : Deleted (longRecord 10) = false := by decide +kernel
  exact WellFormed.long longA_set hnamed hlive .nil

end Rhoudveine.Fat32
