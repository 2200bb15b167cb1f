import Rhoudveine.Fat32.Chains
import Rhoudveine.Fat32.Frames
import Rhoudveine.Fat32.WriteBack

/-!
# What a directory lists

The two scans as one pass over the records of a directory, and the live records.
-/

namespace Rhoudveine.Fat32
open Fs Mm LittleEndian

/-! ## The records of a directory -/

def clusterRecords (st : Volume) (c : UInt32) : List Record :=
  (List.range st.fs.bs.entriesPerCluster.toNat).map
    (recordAt fun i => st.disk (clusterStart st.fs c + i))

def dirRecords (st : Volume) (chain : List UInt32) : List Record := chain.flatMap (clusterRecords st)

/-- The records before the first one whose first byte is zero. -/
def beforeEnd (rs : List Record) : List Record := rs.takeWhile (· 0 ≠ 0)

/-- A file or a directory, deleted or not; a long-name record has the volume-id bit too. -/
def Named (r : Record) : Bool := r.attr &&& attrVolumeId = 0

def Deleted (r : Record) : Bool := r 0 = 0xE5

/-- The live records, in order. -/
def liveRecords (rs : List Record) : List Record :=
  (beforeEnd rs).filter fun r => Named r && ! Deleted r

/-- The records that the two scans take for files and directories. -/
def listedRecords (rs : List Record) : List Record := (beforeEnd rs).filter Named

/-- The node that a record stands for. -/
structure NodeFor (dir : NodeData) (r : Record) (node : Node) : Prop where
  data : node.data = some ⟨r.firstCluster, dir.firstCluster⟩
  size : node.size = r.fileSize
  flags : node.flags = if r.attr &&& attrDirectory ≠ 0 then vfsDirectory else vfsFile

/-! ## Records with the same bytes -/

/-- The 32 bytes agree. -/
def Record.Same (r r' : Record) : Prop := ∀ k < 32, r k = r' k

namespace Record.Same

variable {r r' : Record}

theorem symm (h : r.Same r') : r'.Same r := fun k hk => (h k hk).symm

theorem attr (h : r.Same r') : r.attr = r'.attr := h 11 (by norm_num)

theorem le (h : r.Same r') {i n : ℕ} (hn : i + n ≤ 32) : le r i n = le r' i n :=
  le_congr fun k hk => h (i + k) (by omega)

theorem firstCluster (h : r.Same r') : r.firstCluster = r'.firstCluster := by
  rw [Record.firstCluster, Record.firstCluster, h.le (by norm_num), h.le (by norm_num)]

theorem fileSize (h : r.Same r') : r.fileSize = r'.fileSize := by
  rw [Record.fileSize, Record.fileSize, h.le (by norm_num)]

theorem checksum (h : r.Same r') : r.checksum = r'.checksum := by
  unfold Record.checksum
  apply List.foldl_ext
  intro sum k hk
  rw [h k (by have := List.mem_range.mp hk; omega)]

theorem valid (h : r.Same r') (lfn : Lfn) : lfn.Valid r ↔ lfn.Valid r' := by
  unfold Lfn.Valid
  rw [h.checksum]

theorem namePart (h : r.Same r') {start len : ℕ} (hn : start + len ≤ 32) :
    namePart r start len = namePart r' start len := by
  have hmap : (List.range len).map (fun i => r (start + i)) =
      (List.range len).map fun i => r' (start + i) := by
    apply List.map_congr_left
    intro i hi
    exact h (start + i) (by have := List.mem_range.mp hi; omega)
  rw [Fat32.namePart, Fat32.namePart, hmap]

theorem normalName (h : r.Same r') : fat32ToNormalName r = fat32ToNormalName r' := by
  rw [fat32ToNormalName, fat32ToNormalName, h.namePart (by norm_num), h.namePart (by norm_num),
    h 8 (by norm_num)]

theorem nameMatches (h : r.Same r') (name : Str) (lfn : Lfn) :
    nameMatches name lfn r = nameMatches name lfn r' := by
  simp only [Fat32.nameMatches, h.normalName, h.valid lfn]

theorem lfnChar (h : r.Same r') {k : ℕ} (hk : k < 13) : Lfn.char r k = Lfn.char r' k := by
  have hlt : Lfn.charIndex k + 1 < 32 := by
    unfold Lfn.charIndex
    split
    · omega
    · split <;> omega
  rw [Lfn.char, Lfn.char, h _ hlt, h _ (by omega)]

theorem add (h : r.Same r') (lfn : Lfn) : lfn.add r = lfn.add r' := by
  have hbuf (idx : ℤ) (buf : ℕ → UInt8) :
      (fun i => if idx.toNat ≤ i ∧ i < idx.toNat + 13 then Lfn.char r (i - idx.toNat) else buf i) =
        fun i => if idx.toNat ≤ i ∧ i < idx.toNat + 13 then Lfn.char r' (i - idx.toNat)
          else buf i := by
    funext i
    split
    · exact h.lfnChar (by omega)
    · rfl
  simp only [Lfn.add, h 0 (by norm_num), h 13 (by norm_num), hbuf]

end Record.Same

/-! ## One pass over a list of records -/

/-- The tests of `scanEntries` on a list of records. -/
def scanList (accept : UInt32 → Lfn → Record → Bool) : List Record → (seen : UInt32) → Lfn → Scan
  | [], seen, lfn => .next seen lfn
  | r :: rs, seen, lfn =>
    if r 0 = 0 then .stop
    else if r.attr &&& attrLfn = attrLfn then scanList accept rs seen (lfn.add r)
    else if r.attr &&& attrVolumeId ≠ 0 then scanList accept rs seen { lfn with checksum := -1 }
    else if accept seen lfn r then .hit r lfn
    else scanList accept rs (seen + 1) .clear

/-- A plain `char` is never 0xE5. -/
theorem charValue_ne (c : UInt8) : charValue c ≠ 0xE5 := by
  have hlt := Int8.toInt_lt c.toInt8
  unfold charValue
  omega

theorem charValue_eq_zero (c : UInt8) : charValue c = 0x00 ↔ c = 0 := by
  unfold charValue
  rw [show (0x00 : ℤ) = (0 : Int8).toInt from rfl, Int8.toInt_inj]
  constructor
  · intro h
    exact congrArg Int8.toUInt8 h
  · rintro rfl
    rfl

variable {accept : UInt32 → Lfn → Record → Bool}

theorem scanEntries_eq (buf : ℕ → UInt8) (rounds i : ℕ) (seen : UInt32) (lfn : Lfn) :
    scanEntries accept buf rounds i seen lfn =
      scanList accept ((List.range rounds).map fun j => recordAt buf (i + j)) seen lfn := by
  induction rounds generalizing i seen lfn with
  | zero => rfl
  | succ rounds ih =>
    have hrest : (List.range rounds).map ((fun j => recordAt buf (i + j)) ∘ Nat.succ) =
        (List.range rounds).map fun j => recordAt buf (i + 1 + j) := by
      apply List.map_congr_left
      intro j _
      rw [Function.comp_apply, Nat.succ_eq_add_one, Nat.add_right_comm, Nat.add_assoc]
    rw [List.range_succ_eq_map, List.map_cons, List.map_map, hrest]
    simp only [scanEntries, scanList, charValue_eq_zero, if_neg (charValue_ne _), ih, Nat.add_zero]

theorem scanList_append (rs rs' : List Record) (seen : UInt32) (lfn : Lfn) :
    scanList accept (rs ++ rs') seen lfn =
      match scanList accept rs seen lfn with
      | .stop => .stop
      | .hit r lfn => .hit r lfn
      | .next seen lfn => scanList accept rs' seen lfn := by
  induction rs generalizing seen lfn with
  | nil => rfl
  | cons r rs ih =>
    rw [List.cons_append, scanList, scanList]
    split
    · rfl
    · split
      · exact ih seen _
      · split
        · exact ih seen _
        · split
          · rfl
          · exact ih _ _

/-- The outcome of two scans of records with the same bytes. -/
inductive ScanAlike : Scan → Scan → Prop
  | stop : ScanAlike .stop .stop
  | hit {r r' : Record} {lfn : Lfn} : r.Same r' → ScanAlike (.hit r lfn) (.hit r' lfn)
  | next {seen : UInt32} {lfn : Lfn} : ScanAlike (.next seen lfn) (.next seen lfn)

theorem scanList_alike (haccept : ∀ seen lfn r r', r.Same r' → accept seen lfn r = accept seen lfn r')
    {rs rs' : List Record} (h : List.Forall₂ Record.Same rs rs') (seen : UInt32) (lfn : Lfn) :
    ScanAlike (scanList accept rs seen lfn) (scanList accept rs' seen lfn) := by
  induction h generalizing seen lfn with
  | nil => exact .next
  | cons hr _ ih =>
    rw [scanList, scanList, hr 0 (by norm_num), hr.attr, hr.add, haccept seen lfn _ _ hr]
    split
    · exact .stop
    · split
      · exact ih seen _
      · split
        · exact ih seen _
        · split
          · exact .hit hr
          · exact ih _ _

/-- The record that a scan ends at. -/
def Scan.found : Scan → Option (Record × Lfn)
  | .hit r lfn => some (r, lfn)
  | _ => none

/-! ## The walk over the clusters -/

variable {dev : Device} {st : Volume}

theorem clusterRecords_same (hmounted : Mounted st.fs) {c : UInt32} {buf : ℕ → UInt8}
    (hbuf : ∀ i < 512 * st.fs.bs.sectorsPerCluster.toNat,
      buf i = st.disk (clusterStart st.fs c + i)) :
    List.Forall₂ Record.Same
      ((List.range st.fs.bs.entriesPerCluster.toNat).map fun j => recordAt buf (0 + j))
      (clusterRecords st c) := by
  unfold clusterRecords
  rw [List.forall₂_map_left_iff, List.forall₂_map_right_iff, List.forall₂_same]
  intro j hj k hk
  have hlt := List.mem_range.mp hj
  rw [hmounted.toNat_entriesPerCluster] at hlt
  unfold recordAt
  rw [Nat.zero_add, hbuf _ (by omega)]

/-- The scan of a chain is one pass over its records, and changes nothing on the volume. -/
theorem scanChain_spec (haccept : ∀ seen lfn r r', r.Same r' → accept seen lfn r = accept seen lfn r')
    (hok : ∀ n, dev.ok n = true) (hmounted : Mounted st.fs) {page : UInt64} {fuel : ℕ} {c : UInt32}
    {chain : List UInt32} (hchain : IsChain st c chain) (hfuel : chain.length < fuel)
    (buf : ℕ → UInt8) (seen : UInt32) (lfn : Lfn) :
    ∃ found st', scanChain dev accept page fuel c buf seen lfn st = some (found, st') ∧
      SameVolume st st' ∧
      Option.Rel (fun p q => p.1.Same q.1 ∧ p.2 = q.2) found
        (scanList accept (dirRecords st chain) seen lfn).found := by
  induction chain generalizing st fuel c buf seen lfn with
  | nil =>
    obtain ⟨fuel, rfl⟩ := Nat.exists_eq_succ_of_ne_zero (Nat.ne_of_gt hfuel)
    have hend : c ≥ endOfChain := hchain
    refine ⟨none, st, ?_, SameVolume.refl st, .none⟩
    rw [scanChain, if_pos hend]
  | cons x xs ih =>
    obtain ⟨hlt, rfl, hrest⟩ := hchain
    obtain ⟨fuel, rfl⟩ := Nat.exists_eq_succ_of_ne_zero (Nat.ne_zero_of_lt hfuel)
    have hlength : xs.length < fuel := by
      rw [List.length_cons] at hfuel
      omega
    obtain ⟨buf', t, hread, hsame, -, hbuf⟩ := @fat32ReadCluster_ok dev st hok x page buf
    have halike := scanList_alike haccept (clusterRecords_same hmounted hbuf) seen lfn
    rw [← scanEntries_eq] at halike
    have hall : dirRecords st (x :: xs) = clusterRecords st x ++ dirRecords st xs := rfl
    rw [scanChain, if_neg (UInt32.not_le.mpr hlt), hread, hall, scanList_append]
    dsimp only
    rw [hsame.fs]
    generalize scanEntries accept buf' st.fs.bs.entriesPerCluster.toNat 0 seen lfn = out at halike
    generalize scanList accept (clusterRecords st x) seen lfn = out' at halike
    cases halike with
    | stop => exact ⟨none, t, rfl, hsame, .none⟩
    | hit hr => exact ⟨_, t, rfl, hsame, .some ⟨hr, rfl⟩⟩
    | next =>
      rename_i seen' lfn'
      have hcached : t.fs.fatCacheValid = true := by
        rw [hsame.fs]
        exact hmounted.cached
      obtain ⟨hlink, hget⟩ := @fat32GetFatEntry_cached t hcached x
      have hboth := hsame.trans hget
      have hmounted' : Mounted (fat32GetFatEntry t x).2.fs := by
        rw [hboth.fs]
        exact hmounted
      rw [hsame.fatLink] at hlink
      have hrecords : dirRecords (fat32GetFatEntry t x).2 xs = dirRecords st xs := by
        unfold dirRecords clusterRecords
        rw [hboth.fs, hboth.disk]
      obtain ⟨found, st', hscan, hsame', hfound⟩ :=
        ih hmounted' (hboth.isChain hrest) hlength buf' seen' lfn'
      rw [hrecords] at hfound
      refine ⟨found, st', ?_, hboth.trans hsame', hfound⟩
      dsimp only
      rw [hlink]
      exact hscan

/-- A scan changes nothing on the volume, whatever the chain and the transfers. -/
theorem scanChain_same {page : UInt64} {fuel : ℕ} {c : UInt32} {buf : ℕ → UInt8} {seen : UInt32}
    {lfn : Lfn} {found : Option (Record × Lfn)} {st' : Volume}
    (h : scanChain dev accept page fuel c buf seen lfn st = some (found, st')) :
    SameVolume st st' := by
  induction fuel generalizing c buf seen lfn st with
  | zero => cases h
  | succ fuel ih =>
    have hread : SameVolume st (fat32ReadCluster dev st c page buf).2.2 := ⟨rfl, rfl, rfl⟩
    unfold scanChain at h
    split at h
    · cases h
      exact SameVolume.refl _
    · generalize fat32ReadCluster dev st c page buf = out at h hread
      obtain ⟨ok, buf, t⟩ := out
      cases ok with
      | false =>
        cases h
        exact hread
      | true =>
        dsimp only at h hread
        split at h
        · cases h
          exact hread
        · cases h
          exact hread
        · exact (hread.trans (fat32GetFatEntry_same t c)).trans (ih h)

theorem fat32Scan_same {fuel : ℕ} {node : Node} {found : Option Node} {st' : Volume}
    (h : fat32Scan dev accept fuel st node = some (found, st')) : SameVolume st st' := by
  have halloc : SameVolume st st.alloc.2 := ⟨rfl, rfl, rfl⟩
  unfold fat32Scan at h
  split at h
  · cases h
    exact SameVolume.refl _
  · dsimp only at h
    split at h
    · cases h
      exact halloc
    · split at h
      · cases h
      · rename_i t hscan
        cases h
        have hsame := halloc.trans (scanChain_same hscan)
        exact ⟨hsame.fs, hsame.fatCache, hsame.disk⟩
      · rename_i hscan
        cases h
        have hsame := halloc.trans (scanChain_same hscan)
        exact ⟨hsame.fs, hsame.fatCache, hsame.disk⟩

/-! ## Which record a scan ends at -/

theorem listedRecords_end {r : Record} (hr : r 0 = 0) (rs : List Record) :
    listedRecords (r :: rs) = [] := by
  simp [listedRecords, beforeEnd, hr]

theorem listedRecords_cons {r : Record} (hr : r 0 ≠ 0) (rs : List Record) :
    listedRecords (r :: rs) = if Named r then r :: listedRecords rs else listedRecords rs := by
  simp only [listedRecords, beforeEnd, List.takeWhile_cons, hr, ne_eq, not_false_eq_true,
    decide_true, if_true, List.filter_cons]

/-- A long-name record has the volume-id bit. -/
theorem not_named_of_lfn {r : Record} (h : r.attr &&& attrLfn = attrLfn) : Named r = false := by
  have hbit : r.attr &&& attrVolumeId = (r.attr &&& attrLfn) &&& attrVolumeId := by
    rw [UInt8.and_assoc]
    rfl
  unfold Named
  rw [hbit, h]
  rfl

/-- The records taken for files and directories, each with the long-name state in front of it. -/
def scanned : List Record → Lfn → List (Record × Lfn)
  | [], _ => []
  | r :: rs, lfn =>
    if r 0 = 0 then []
    else if r.attr &&& attrLfn = attrLfn then scanned rs (lfn.add r)
    else if r.attr &&& attrVolumeId ≠ 0 then scanned rs { lfn with checksum := -1 }
    else (r, lfn) :: scanned rs .clear

theorem scanned_fst (rs : List Record) (lfn : Lfn) :
    (scanned rs lfn).map Prod.fst = listedRecords rs := by
  induction rs generalizing lfn with
  | nil => rfl
  | cons r rs ih =>
    rw [scanned]
    by_cases hr : r 0 = 0
    · rw [listedRecords_end hr, if_pos hr]
      rfl
    · rw [listedRecords_cons hr, if_neg hr]
      by_cases hlfn : r.attr &&& attrLfn = attrLfn
      · rw [if_pos hlfn, not_named_of_lfn hlfn]
        exact ih _
      · rw [if_neg hlfn]
        by_cases hvolume : r.attr &&& attrVolumeId ≠ 0
        · have hnamed : Named r = false := decide_eq_false hvolume
          rw [if_pos hvolume, hnamed]
          exact ih _
        · have hnamed : Named r = true := decide_eq_true (not_not.mp hvolume)
          rw [if_neg hvolume, hnamed, if_pos rfl, List.map_cons, ih]

/-- The first entry that `accept` takes, with the number of entries before it. -/
def pick (accept : UInt32 → Lfn → Record → Bool) :
    List (Record × Lfn) → (seen : UInt32) → Option (Record × Lfn)
  | [], _ => none
  | hit :: hits, seen => if accept seen hit.2 hit.1 then some hit else pick accept hits (seen + 1)

theorem scanList_pick (rs : List Record) (seen : UInt32) (lfn : Lfn) :
    (scanList accept rs seen lfn).found = pick accept (scanned rs lfn) seen := by
  induction rs generalizing seen lfn with
  | nil => rfl
  | cons r rs ih =>
    rw [scanList, scanned]
    split
    · rfl
    · split
      · exact ih _ _
      · split
        · exact ih _ _
        · rw [pick]
          split
          · rfl
          · exact ih _ _

/-- Asking for number `m` when `n` files are counted already. -/
theorem pick_index (hits : List (Record × Lfn)) {n m : ℕ} (hnm : n ≤ m) (hm : m < 2 ^ 32) :
    pick (fun seen _ _ => seen = UInt32.ofNat m) hits (UInt32.ofNat n) = hits[m - n]? := by
  induction hits generalizing n with
  | nil => rfl
  | cons hit hits ih =>
    rw [pick]
    by_cases heq : n = m
    · subst heq
      rw [if_pos (decide_eq_true rfl), Nat.sub_self]
      rfl
    · have hne : UInt32.ofNat n ≠ UInt32.ofNat m := by
        intro h
        have hnat := congrArg UInt32.toNat h
        rw [UInt32.toNat_ofNat', UInt32.toNat_ofNat', Nat.mod_eq_of_lt (by omega),
          Nat.mod_eq_of_lt hm] at hnat
        exact heq hnat
      have hnext : UInt32.ofNat n + 1 = UInt32.ofNat (n + 1) := (UInt32.ofNat_add n 1).symm
      have hpos : m - n = m - (n + 1) + 1 := by omega
      rw [if_neg (by simpa using hne), hnext, ih (by omega), hpos, List.getElem?_cons_succ]

theorem scanList_index (rs : List Record) (index : UInt32) (lfn : Lfn) :
    (scanList (fun seen _ _ => seen = index) rs 0 lfn).found = (scanned rs lfn)[index.toNat]? := by
  have hpick := pick_index (scanned rs lfn) (Nat.zero_le index.toNat) (UInt32.toNat_lt index)
  rw [UInt32.ofNat_toNat, Nat.sub_zero] at hpick
  rw [scanList_pick]
  exact hpick

theorem pick_find (test : Lfn → Record → Bool) (hits : List (Record × Lfn)) (seen : UInt32) :
    pick (fun _ => test) hits seen = hits.find? fun hit => test hit.2 hit.1 := by
  induction hits generalizing seen with
  | nil => rfl
  | cons hit hits ih =>
    rw [pick, List.find?_cons, ih]
    cases test hit.2 hit.1 with
    | true => rfl
    | false => rfl

theorem scanList_find (test : Lfn → Record → Bool) (rs : List Record) (seen : UInt32) (lfn : Lfn) :
    (scanList (fun _ => test) rs seen lfn).found =
      (scanned rs lfn).find? fun hit => test hit.2 hit.1 := by
  rw [scanList_pick, pick_find]

theorem scanList_found {test : Lfn → Record → Bool} {rs : List Record} {seen : UInt32} {lfn : Lfn}
    {hit : Record × Lfn} (h : (scanList (fun _ => test) rs seen lfn).found = some hit) :
    hit.1 ∈ listedRecords rs := by
  rw [scanList_find] at h
  rw [← scanned_fst rs lfn]
  exact List.mem_map_of_mem (List.mem_of_find?_eq_some h)

/-! ## The two calls -/

/-- Three allocations succeed. -/
def ThreeFree (s : Pfa) : Prop :=
  (pfaAlloc s).1 ≠ 0 ∧ (pfaAlloc (pfaAlloc s).2).1 ≠ 0 ∧
    (pfaAlloc (pfaAlloc (pfaAlloc s).2).2).1 ≠ 0

/-- The name of the node for an entry. -/
def nodeName (hit : Record × Lfn) : Str :=
  if hit.2.Valid hit.1 then hit.2.name.take 127 else fat32ToNormalName hit.1

/-- The node for an entry, with its name. -/
structure EntryNode (dir : NodeData) (hit : Record × Lfn) (node : Node) : Prop
    extends NodeFor dir hit.1 node where
  name : node.name = nodeName hit

theorem makeNode_for {r r' : Record} (hr : r.Same r') (dir : NodeData) (lfn : Lfn)
    (hpage : (pfaAlloc st.pfa).1 ≠ 0) (hdata : (pfaAlloc (pfaAlloc st.pfa).2).1 ≠ 0) :
    ∃ node, (makeNode st dir r lfn).1 = some node ∧ EntryNode dir (r', lfn) node ∧
      SameVolume st (makeNode st dir r lfn).2 := by
  unfold makeNode
  dsimp only [Volume.alloc]
  rw [if_neg hpage]
  refine ⟨_, rfl, ⟨⟨?_, ?_, ?_⟩, ?_⟩, rfl, rfl, rfl⟩
  · rw [if_neg hdata, hr.firstCluster]
  · exact hr.fileSize
  · rw [hr.attr]
  · simp only [nodeName, hr.valid lfn, hr.normalName]

/-- A scan with enough room. -/
theorem fat32Scan_spec (haccept : ∀ seen lfn r r', r.Same r' → accept seen lfn r = accept seen lfn r')
    (hok : ∀ n, dev.ok n = true) (hmounted : Mounted st.fs) (hroom : ThreeFree st.pfa) {fuel : ℕ}
    {node : Node} {dir : NodeData} (hdata : node.data = some dir) {chain : List UInt32}
    (hchain : IsChain st dir.firstCluster chain) (hfuel : chain.length < fuel) :
    ∃ child st', fat32Scan dev accept fuel st node = some (child, st') ∧ SameVolume st st' ∧
      Option.Rel (EntryNode dir) (scanList accept (dirRecords st chain) 0 .clear).found child := by
  obtain ⟨hbuf, hpage, hdatapage⟩ := hroom
  have halloc : SameVolume st st.alloc.2 := ⟨rfl, rfl, rfl⟩
  obtain ⟨found, t, hscan, hsame, hfound⟩ :=
    @scanChain_spec accept dev st.alloc.2 haccept hok hmounted (pfaAlloc st.pfa).1 fuel
      dir.firstCluster chain (halloc.isChain hchain) hfuel (dev.leftover (pfaAlloc st.pfa).1) 0
      .clear
  have hrecords : dirRecords st.alloc.2 chain = dirRecords st chain := rfl
  have hpfa : t.pfa = (pfaAlloc st.pfa).2 := scanChain_pfa hscan
  rw [hrecords] at hfound
  unfold fat32Scan
  rw [hdata]
  dsimp only [Volume.alloc] at hscan ⊢
  rw [if_neg hbuf, hscan]
  generalize (scanList accept (dirRecords st chain) 0 .clear).found = out at hfound
  cases hfound with
  | none => exact ⟨none, _, rfl, ⟨hsame.fs, hsame.fatCache, hsame.disk⟩, .none⟩
  | some hhit =>
    rename_i p q
    obtain ⟨hrecord, hlfn⟩ := hhit
    rw [← hpfa] at hpage hdatapage
    obtain ⟨child, hchild, hfor, hsame'⟩ := makeNode_for hrecord dir p.2 hpage hdatapage
    rw [hlfn] at hfor
    have hboth := hsame.trans hsame'
    refine ⟨some child, (makeNode t dir p.1 p.2).2.free (pfaAlloc st.pfa).1, ?_,
      ⟨hboth.fs, hboth.fatCache, hboth.disk⟩, .some hfor⟩
    dsimp only
    rw [hchild]

/-! ## Live records -/

theorem liveRecords_eq (rs : List Record) :
    liveRecords rs = (listedRecords rs).filter fun r => ! Deleted r := by
  rw [liveRecords, listedRecords, List.filter_filter]
  simp only [Bool.and_comm]

/-- No deleted record is taken for a file or a directory. -/
def DeletedHidden (rs : List Record) : Prop := ∀ r ∈ listedRecords rs, Deleted r = false

theorem listedRecords_eq_live {rs : List Record} (h : DeletedHidden rs) :
    listedRecords rs = liveRecords rs := by
  rw [liveRecords_eq]
  symm
  apply List.filter_eq_self.mpr
  intro r hr
  rw [h r hr]
  rfl

theorem length_live_lt {rs : List Record} (h : ¬ DeletedHidden rs) :
    (liveRecords rs).length < (listedRecords rs).length := by
  unfold DeletedHidden at h
  push Not at h
  obtain ⟨r, hr, hdeleted⟩ := h
  rw [liveRecords_eq]
  apply List.length_filter_lt_length_iff_exists.mpr
  exact ⟨r, hr, by simpa using hdeleted⟩

/-- The listing of a directory is what its live records say, in every state of the volume in which
three frames are free. -/
structure ListsLive (dev : Device) (fuel : ℕ) (vol : Volume) (node : Node) (dir : NodeData)
    (rs : List Record) : Prop where
  /-- The index reaches every live record, and the end. -/
  indices : ∀ i ≤ (liveRecords rs).length, ∃ index : UInt32, index.toNat = i
  readdir : ∀ st, SameVolume vol st → ThreeFree st.pfa → ∀ index : UInt32, ∃ child st',
    fat32Readdir dev fuel st node index = some (child, st') ∧ SameVolume vol st' ∧
      Option.Rel (NodeFor dir) (liveRecords rs)[index.toNat]? child
  finddir : ∀ st, SameVolume vol st → ThreeFree st.pfa → ∀ name, ∃ child st',
    fat32Finddir dev fuel st node name = some (child, st') ∧ SameVolume vol st' ∧
      ∀ found, child = some found → ∃ r ∈ liveRecords rs, NodeFor dir r found

section Directory

variable {vol : Volume} {fuel : ℕ} {node : Node} {dir : NodeData} {chain : List UInt32}

theorem fat32Readdir_listed (hok : ∀ n, dev.ok n = true) (hmounted : Mounted st.fs)
    (hroom : ThreeFree st.pfa) (hdata : node.data = some dir)
    (hchain : IsChain st dir.firstCluster chain) (hfuel : chain.length < fuel) (index : UInt32) :
    ∃ child st', fat32Readdir dev fuel st node index = some (child, st') ∧ SameVolume st st' ∧
      Option.Rel (NodeFor dir) (listedRecords (dirRecords st chain))[index.toNat]? child := by
  obtain ⟨child, st', hscan, hsame, hrel⟩ :=
    @fat32Scan_spec (fun seen _ _ => seen = index) dev st (fun _ _ _ _ _ => rfl) hok hmounted hroom
      fuel node dir hdata chain hchain hfuel
  refine ⟨child, st', hscan, hsame, ?_⟩
  rw [scanList_index] at hrel
  rw [← scanned_fst _ .clear, List.getElem?_map]
  generalize (scanned (dirRecords st chain) .clear)[index.toNat]? = out at hrel
  cases hrel with
  | none => exact .none
  | some hfor => exact .some hfor.toNodeFor

theorem fat32Finddir_listed (hok : ∀ n, dev.ok n = true) (hmounted : Mounted st.fs)
    (hroom : ThreeFree st.pfa) (hdata : node.data = some dir)
    (hchain : IsChain st dir.firstCluster chain) (hfuel : chain.length < fuel) (name : Str) :
    ∃ child st', fat32Finddir dev fuel st node name = some (child, st') ∧ SameVolume st st' ∧
      ∀ found, child = some found →
        ∃ r ∈ listedRecords (dirRecords st chain), NodeFor dir r found := by
  obtain ⟨child, st', hscan, hsame, hrel⟩ :=
    fat32Scan_spec (fun _ lfn _ _ hr => hr.nameMatches name lfn) hok hmounted hroom hdata hchain
      hfuel
  refine ⟨child, st', hscan, hsame, ?_⟩
  rintro found rfl
  generalize hout : (scanList (fun _ => nameMatches name) (dirRecords st chain) 0 .clear).found =
    out at hrel
  cases out with
  | none => cases hrel
  | some hit =>
    cases hrel with
    | some hfor => exact ⟨hit.1, scanList_found hout, hfor.toNodeFor⟩

theorem dirRecords_same (h : SameVolume vol st) (chain : List UInt32) :
    dirRecords st chain = dirRecords vol chain := by
  unfold dirRecords clusterRecords
  rw [h.fs, h.disk]

theorem threeFree_freshPfa : ThreeFree freshPfa := by
  unfold ThreeFree
  decide +kernel

end Directory

/-! ## A directory with one record -/

/-- `smallDisk` with one record in its root directory: the name is one character. -/
def fileDisk (c : UInt8) (a : ℕ) : UInt8 :=
  if a = 1024 then c else if 1024 < a ∧ a ≤ 1035 then 0x20 else smallDisk 1 a

def fileVolume (c : UInt8) : ℤ × Option Node × Volume :=
  fat32Mount goodDevice (unmounted (fileDisk c)) none

def fileRoot (c : UInt8) : Node := (fileVolume c).2.1.getD ⟨0, [], 0, 0, 0, none⟩

theorem fileVolume_mounted (c : UInt8) (hc : (fileVolume c).1 = 0) : Mounted (fileVolume c).2.2.fs := by
  obtain ⟨root, st, hvol⟩ : ∃ root st, fileVolume c = (0, root, st) :=
    ⟨_, _, Prod.ext hc rfl⟩
  obtain ⟨node, -, hmount⟩ := fat32Mount_ok hvol
  rw [hvol]
  exact hmount.mounted

theorem fileVolume_chain : IsChain (fileVolume 0x41).2.2 2 [2] := by
  refine ⟨by decide, rfl, ?_⟩
  change endOfChain ≤ fatLink (fileVolume 0x41).2.2 2
  decide +kernel

end Rhoudveine.Fat32
