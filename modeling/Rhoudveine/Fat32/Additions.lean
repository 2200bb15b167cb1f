import Rhoudveine.Fat32.NewEntries

/-!
# What a directory lists after a creation

The entries that `fat32_readdir` and `fat32_finddir` give before and after `fat32_create`.
-/

namespace Rhoudveine.Fat32
open Fs Mm

/-! ## Listings -/

/-- A node without the addresses of its pages. -/
def Node.content (node : Node) : Node := { node with page := 0, dataPage := 0 }

/-- `fat32_readdir`, asked for the indices 0, 1, 2 and so on, gives these nodes, in every state of
the volume in which three frames are free. -/
structure ListsNodes (dev : Device) (fuel : ℕ) (vol : Volume) (node : Node) (nodes : List Node) :
    Prop where
  /-- The index reaches the end. -/
  indices : nodes.length < 2 ^ 32
  readdir : ∀ st, SameVolume vol st → ThreeFree st.pfa → ∀ index : UInt32, ∃ child st',
    fat32Readdir dev fuel st node index = some (child, st') ∧
      child.map Node.content = nodes[index.toNat]?

/-- `fat32_finddir` gives this node for a name. -/
def FindsEntry (dev : Device) (fuel : ℕ) (vol : Volume) (node : Node) (name : Str)
    (found : Node) : Prop :=
  ∀ st, SameVolume vol st → ThreeFree st.pfa → ∃ child st',
    fat32Finddir dev fuel st node name = some (some child, st') ∧ child.content = found

/-- What `fat32_create` should do to a directory: the listing has one more entry, of the name,
whatever its case, and of the kind, and `fat32_finddir` gives that entry for the name. -/
def AddsEntry (dev : Device) (fuel : ℕ) (st st' : Volume) (parent : Node) (name : Str)
    (flags : UInt32) : Prop :=
  ∃ xs ys new, ListsNodes dev fuel st parent (xs ++ ys) ∧
    ListsNodes dev fuel st' parent (xs ++ new :: ys) ∧ SameText new.name name ∧
    new.flags = (if flags &&& vfsDirectory ≠ 0 then vfsDirectory else vfsFile) ∧
    FindsEntry dev fuel st' parent name new

/-! ## What the records list -/

variable {dev : Device} {st st' vol : Volume} {node parent : Node} {dir : NodeData} {name : Str}
  {chain : List UInt32} {rs rs' used : List Record} {lfn : Lfn} {fuel : ℕ}

/-- What the node for an entry holds. -/
def entryContent (dir : NodeData) (hit : Record × Lfn) : Node where
  page := 0
  name := nodeName hit
  size := hit.1.fileSize
  flags := if hit.1.attr &&& attrDirectory ≠ 0 then vfsDirectory else vfsFile
  dataPage := 0
  data := some ⟨hit.1.firstCluster, dir.firstCluster⟩

theorem EntryNode.content {hit : Record × Lfn} (h : EntryNode dir hit node) :
    node.content = entryContent dir hit := by
  rw [Node.content, entryContent, h.name, h.size, h.flags, h.data]

def listing (dir : NodeData) (rs : List Record) : List Node :=
  (scanned rs .clear).map (entryContent dir)

/-- What is found by a name. -/
def lookup (dir : NodeData) (name : Str) (rs : List Record) : Option Node :=
  ((scanned rs .clear).find? fun hit => nameMatches name hit.2 hit.1).map (entryContent dir)

theorem length_listing (dir : NodeData) (rs : List Record) :
    (listing dir rs).length = (listedRecords rs).length := by
  rw [listing, List.length_map, ← scanned_fst rs .clear, List.length_map]

/-- The same record, with the same long name in front of it. -/
def SameHit (hit hit' : Record × Lfn) : Prop := hit.1.Same hit'.1 ∧ hit.2 = hit'.2

theorem SameHit.content {hit hit' : Record × Lfn} (h : SameHit hit hit') :
    entryContent dir hit = entryContent dir hit' := by
  obtain ⟨r, lfn⟩ := hit
  obtain ⟨r', lfn'⟩ := hit'
  obtain ⟨hr, rfl⟩ := h
  have hr : r.Same r' := hr
  simp only [entryContent, nodeName, hr.valid lfn, hr.normalName, hr.fileSize, hr.attr,
    hr.firstCluster]

theorem scanned_same (h : List.Forall₂ Record.Same rs rs') (lfn : Lfn) :
    List.Forall₂ SameHit (scanned rs lfn) (scanned rs' lfn) := by
  induction h generalizing lfn with
  | nil => exact .nil
  | cons hr _ ih =>
    rw [scanned, scanned, hr 0 (by norm_num), hr.attr, hr.add]
    split
    · exact .nil
    · split
      · exact ih _
      · split
        · exact ih _
        · exact .cons ⟨hr, rfl⟩ (ih _)

theorem listing_same (h : List.Forall₂ Record.Same rs rs') : listing dir rs = listing dir rs' := by
  have hhits := scanned_same h .clear
  unfold listing
  generalize scanned rs .clear = hits at hhits ⊢
  generalize scanned rs' .clear = hits' at hhits ⊢
  induction hhits with
  | nil => rfl
  | cons hhit _ ih => rw [List.map_cons, List.map_cons, ih, hhit.content]

theorem lookup_same (h : List.Forall₂ Record.Same rs rs') :
    lookup dir name rs = lookup dir name rs' := by
  have hhits := scanned_same h .clear
  unfold lookup
  generalize scanned rs .clear = hits at hhits ⊢
  generalize scanned rs' .clear = hits' at hhits ⊢
  induction hhits with
  | nil => rfl
  | @cons hit hit' _ _ hhit _ ih =>
    rw [List.find?_cons, List.find?_cons, hhit.1.nameMatches name hit.2, hhit.2]
    split
    · exact congrArg some hhit.content
    · exact ih

/-! ## The two calls -/

theorem fat32Readdir_content (hok : ∀ n, dev.ok n = true) (hmounted : Mounted st.fs)
    (hroom : ThreeFree st.pfa) (hdata : node.data = some dir)
    (hchain : IsChain st dir.firstCluster chain) (hfuel : chain.length < fuel) (index : UInt32) :
    ∃ child st', fat32Readdir dev fuel st node index = some (child, st') ∧
      child.map Node.content = (listing dir (dirRecords st chain))[index.toNat]? := by
  obtain ⟨child, st', hscan, -, hrel⟩ :=
    @fat32Scan_spec (fun seen _ _ => seen = index) dev st (fun _ _ _ _ _ => rfl) hok hmounted hroom
      fuel node dir hdata chain hchain hfuel
  refine ⟨child, st', hscan, ?_⟩
  rw [scanList_index] at hrel
  rw [listing, List.getElem?_map]
  generalize (scanned (dirRecords st chain) .clear)[index.toNat]? = found at hrel ⊢
  cases hrel with
  | none => rfl
  | some hnode => exact congrArg some hnode.content

theorem fat32Finddir_content (hok : ∀ n, dev.ok n = true) (hmounted : Mounted st.fs)
    (hroom : ThreeFree st.pfa) (hdata : node.data = some dir)
    (hchain : IsChain st dir.firstCluster chain) (hfuel : chain.length < fuel) (name : Str) :
    ∃ child st', fat32Finddir dev fuel st node name = some (child, st') ∧
      child.map Node.content = lookup dir name (dirRecords st chain) := by
  obtain ⟨child, st', hscan, -, hrel⟩ :=
    fat32Scan_spec (fun _ lfn _ _ hr => hr.nameMatches name lfn) hok hmounted hroom hdata hchain
      hfuel
  refine ⟨child, st', hscan, ?_⟩
  rw [scanList_find] at hrel
  unfold lookup
  generalize (scanned (dirRecords st chain) .clear).find? _ = found at hrel ⊢
  cases hrel with
  | none => rfl
  | some hnode => exact congrArg some hnode.content

/-- The listing is that of the records, if the index is wide enough. -/
theorem listsNodes_iff (hok : ∀ n, dev.ok n = true) (hmounted : Mounted vol.fs)
    (hdata : node.data = some dir) (hchain : IsChain vol dir.firstCluster chain)
    (hfuel : chain.length < fuel) {nodes : List Node} :
    ListsNodes dev fuel vol node nodes ↔
      nodes = listing dir (dirRecords vol chain) ∧ nodes.length < 2 ^ 32 := by
  constructor
  · intro h
    refine ⟨?_, h.indices⟩
    have hsame : SameVolume vol { vol with pfa := freshPfa } := ⟨rfl, rfl, rfl⟩
    have hindex (i : ℕ) (hi : i < 2 ^ 32) :
        nodes[i]? = (listing dir (dirRecords vol chain))[i]? := by
      obtain ⟨child, st', hcall, hchild⟩ := h.readdir _ hsame threeFree_freshPfa (UInt32.ofNat i)
      obtain ⟨child', st'', hcall', hchild'⟩ := @fat32Readdir_content dev
        { vol with pfa := freshPfa } node dir chain fuel hok hmounted threeFree_freshPfa hdata
        (hsame.isChain hchain) hfuel (UInt32.ofNat i)
      obtain ⟨rfl, -⟩ := Prod.mk.inj (Option.some.inj (hcall.symm.trans hcall'))
      rw [dirRecords_same hsame, hchild, UInt32.toNat_ofNat', Nat.mod_eq_of_lt hi] at hchild'
      exact hchild'
    have hend := hindex nodes.length h.indices
    rw [List.getElem?_eq_none le_rfl] at hend
    have hle := List.getElem?_eq_none_iff.mp hend.symm
    have hlt := h.indices
    apply List.ext_getElem?
    intro i
    by_cases hi : i < 2 ^ 32
    · exact hindex i hi
    · rw [List.getElem?_eq_none (by omega), List.getElem?_eq_none (by omega)]
  · rintro ⟨rfl, hlen⟩
    refine ⟨hlen, fun st hsame hroom index => ?_⟩
    obtain ⟨child, st', hcall, hchild⟩ := fat32Readdir_content hok (by rwa [hsame.fs]) hroom hdata
      (hsame.isChain hchain) hfuel index
    rw [dirRecords_same hsame] at hchild
    exact ⟨child, st', hcall, hchild⟩

theorem findsEntry_iff (hok : ∀ n, dev.ok n = true) (hmounted : Mounted vol.fs)
    (hdata : node.data = some dir) (hchain : IsChain vol dir.firstCluster chain)
    (hfuel : chain.length < fuel) {found : Node} :
    FindsEntry dev fuel vol node name found ↔
      lookup dir name (dirRecords vol chain) = some found := by
  constructor
  · intro h
    have hsame : SameVolume vol { vol with pfa := freshPfa } := ⟨rfl, rfl, rfl⟩
    obtain ⟨child, st', hcall, hchild⟩ := h _ hsame threeFree_freshPfa
    obtain ⟨child', st'', hcall', hchild'⟩ := @fat32Finddir_content dev
      { vol with pfa := freshPfa } node dir chain fuel hok hmounted threeFree_freshPfa hdata
      (hsame.isChain hchain) hfuel name
    obtain ⟨rfl, -⟩ := Prod.mk.inj (Option.some.inj (hcall.symm.trans hcall'))
    rw [dirRecords_same hsame] at hchild'
    rw [← hchild', Option.map_some, hchild]
  · intro h st hsame hroom
    obtain ⟨child, st', hcall, hchild⟩ := fat32Finddir_content hok (by rwa [hsame.fs]) hroom hdata
      (hsame.isChain hchain) hfuel name
    rw [dirRecords_same hsame, h] at hchild
    obtain ⟨child, rfl, hcontent⟩ := Option.map_eq_some_iff.mp hchild
    exact ⟨child, st', hcall, hcontent⟩

/-! ## Records behind others -/

/-- The long name that a scan has read behind used records. -/
def leftOver : List Record → Lfn → Lfn
  | [], lfn => lfn
  | r :: rs, lfn =>
    if r.attr &&& attrLfn = attrLfn then leftOver rs (lfn.add r)
    else if r.attr &&& attrVolumeId ≠ 0 then leftOver rs { lfn with checksum := -1 }
    else leftOver rs .clear

theorem scanned_append (hused : ∀ r ∈ used, r 0 ≠ 0) (rs : List Record) (lfn : Lfn) :
    scanned (used ++ rs) lfn = scanned used lfn ++ scanned rs (leftOver used lfn) := by
  induction used generalizing lfn with
  | nil => rfl
  | cons r used ih =>
    obtain ⟨hr, hrest⟩ := List.forall_mem_cons.mp hused
    rw [List.cons_append, scanned, scanned, leftOver, if_neg hr, if_neg hr]
    split
    · exact ih hrest _
    · split
      · exact ih hrest _
      · rw [ih hrest, List.cons_append]

/-- Nothing is read behind a zero. -/
theorem scanned_end (h : ∀ r ∈ rs.head?, r 0 = 0) (lfn : Lfn) : scanned rs lfn = [] := by
  cases rs with
  | nil => rfl
  | cons r rs => rw [scanned, if_pos (h r rfl)]

/-- What the new records add: nothing behind a gap or without their last one. -/
theorem scanned_new {attr : UInt8} {first : UInt32} {gap rest : List Record} {entries : ℕ}
    (hname : AsciiName name) (hattr : attr &&& attrVolumeId = 0) (hgap : ∀ r ∈ gap, r 0 = 0)
    (hrest : ∀ r ∈ rest.head?, r 0 = 0) (lfn : Lfn) :
    ∃ lfn', scanned (gap ++ ((entryRecords name attr first).take entries ++ rest)) lfn =
        (if gap = [] ∧ 1 + lfnEntries name ≤ entries then
          [(shortRecord (shortName name) attr first, lfn')] else []) ∧
      (isLfn name = true → lfn'.Valid (shortRecord (shortName name) attr first) ∧
        lfn'.name = name.take 247) ∧
      (isLfn name = false → lfn' = lfn) := by
  obtain ⟨lfn', hscan, hlong, hshort⟩ := scanned_entryRecords hname hattr first hrest lfn
  refine ⟨lfn', ?_, hlong, hshort⟩
  have hlen := length_entryRecords name attr first
  cases gap with
  | cons r gap =>
    rw [if_neg (by simp)]
    apply scanned_end
    rintro _ ⟨⟩
    exact hgap r List.mem_cons_self
  | nil =>
    rw [List.nil_append]
    by_cases hfew : 1 + lfnEntries name ≤ entries
    · rw [if_pos ⟨rfl, hfew⟩, List.take_of_length_le (hlen.trans_le hfew)]
      exact hscan
    · -- the short record does not get into the cluster
      rw [if_neg fun h => hfew h.2, scanned_set, scanned_end hrest]
      intro p hp
      rw [entryRecords, List.take_append_of_le_length (by
        rw [List.length_map, List.length_range]
        omega)] at hp
      exact lfnRecords_spec hname _ p (List.mem_of_mem_take hp)

/-! ## Creating -/

/-- Two allocations succeed. -/
def TwoFree (s : Pfa) : Prop := (pfaAlloc s).1 ≠ 0 ∧ (pfaAlloc (pfaAlloc s).2).1 ≠ 0

/-- With two free frames `fat32_finddir` returns null only if no entry answers. -/
theorem fat32Finddir_none (hok : ∀ n, dev.ok n = true) (hmounted : Mounted st.fs)
    (hroom : TwoFree st.pfa) (hdata : node.data = some dir)
    (hchain : IsChain st dir.firstCluster chain) (hfuel : chain.length < fuel)
    (h : fat32Finddir dev fuel st node name = some (none, st')) :
    ∀ hit ∈ scanned (dirRecords st chain) .clear, ¬ nameMatches name hit.2 hit.1 = true := by
  obtain ⟨hbuf, hpage⟩ := hroom
  have halloc : SameVolume st st.alloc.2 := ⟨rfl, rfl, rfl⟩
  obtain ⟨found, t, hscan, -, hfound⟩ :=
    @scanChain_spec _ dev st.alloc.2 (fun _ lfn _ _ hr => hr.nameMatches name lfn) hok hmounted
      (pfaAlloc st.pfa).1 fuel dir.firstCluster chain (halloc.isChain hchain) hfuel
      (dev.leftover (pfaAlloc st.pfa).1) 0 .clear
  have hpfa : t.pfa = (pfaAlloc st.pfa).2 := scanChain_pfa hscan
  unfold fat32Finddir fat32Scan at h
  rw [hdata] at h
  dsimp only [Volume.alloc] at h hscan
  rw [if_neg hbuf, hscan] at h
  cases found with
  | some hit =>
    rw [← hpfa] at hpage
    have hnode : (makeNode t dir hit.1 hit.2).1 ≠ none := by
      unfold makeNode
      dsimp only [Volume.alloc]
      rw [if_neg hpage]
      simp
    exact absurd (Prod.mk.inj (Option.some.inj h)).1 hnode
  | none =>
    rw [dirRecords_same halloc, scanList_find] at hfound
    generalize hfind : (scanned (dirRecords st chain) .clear).find? _ = out at hfound
    cases hfound
    exact fun hit hmem => List.find?_eq_none.mp hfind hit hmem

/-- Behind the end of a directory there are free records only. -/
def EndsInZeros (rs : List Record) : Prop := ∀ r ∈ rs.dropWhile (· 0 ≠ 0), r 0 = 0

theorem beforeEnd_append (rs : List Record) : beforeEnd rs ++ rs.dropWhile (· 0 ≠ 0) = rs :=
  List.takeWhile_append_dropWhile

theorem beforeEnd_ne_zero (rs : List Record) : ∀ r ∈ beforeEnd rs, r 0 ≠ 0 := by
  intro r hr
  simpa using List.mem_takeWhile_imp hr

/-- The new entry gets into the cluster with the first free record, it is listed under its name, and
the index reaches it. -/
structure Addable (rs : List Record) (entries : ℕ) (name : Str) : Prop where
  room : (beforeEnd rs).length % entries + (1 + lfnEntries name) ≤ entries
  kept : Kept name (leftOver (beforeEnd rs) .clear)
  indices : (listedRecords rs).length + 1 < 2 ^ 32

/-- What the directory lists and finds after the entry is written. -/
theorem Entered.listing {first : UInt32} {chain' : List UInt32} {gap rest : List Record}
    {attr : UInt8} {d : UInt32} {entries : ℕ}
    (h : Entered st st' first chain chain' (beforeEnd rs) gap
      ((entryRecords name attr d).take entries) rest)
    (hgap : gap = [] ∧ 1 + lfnEntries name ≤ entries ↔
      (beforeEnd rs).length % entries + (1 + lfnEntries name) ≤ entries)
    (hname : AsciiName name) (hattr : attr &&& attrVolumeId = 0)
    (hnone : ∀ hit ∈ scanned rs .clear, ¬ nameMatches name hit.2 hit.1 = true) (dir : NodeData) :
    ∃ lfn, Fat32.listing dir (dirRecords st' chain') = Fat32.listing dir rs ++
        (if (beforeEnd rs).length % entries + (1 + lfnEntries name) ≤ entries then
          [entryContent dir (shortRecord (shortName name) attr d, lfn)] else []) ∧
      lookup dir name (dirRecords st' chain') =
        (if (beforeEnd rs).length % entries + (1 + lfnEntries name) ≤ entries ∧
            nameMatches name lfn (shortRecord (shortName name) attr d) = true then
          some (entryContent dir (shortRecord (shortName name) attr d, lfn)) else none) ∧
      (isLfn name = true → lfn.Valid (shortRecord (shortName name) attr d) ∧
        lfn.name = name.take 247) ∧
      (isLfn name = false → lfn = leftOver (beforeEnd rs) .clear) := by
  obtain ⟨lfn, hnew, hlong, hshort⟩ := @scanned_new name attr d gap rest entries hname hattr h.gap
    h.rest (leftOver (beforeEnd rs) .clear)
  simp only [hgap] at hnew
  have hall := scanned_append (beforeEnd_ne_zero rs)
    (gap ++ ((entryRecords name attr d).take entries ++ rest)) .clear
  rw [scanned_beforeEnd, hnew] at hall
  refine ⟨lfn, ?_, ?_, hlong, hshort⟩
  · rw [listing_same h.records, Fat32.listing, hall, List.map_append, Fat32.listing]
    congr 1
    split <;> rfl
  · rw [lookup_same h.records, lookup, hall, List.find?_append,
      List.find?_eq_none.mpr (by simpa using hnone)]
    split
    · rename_i hroom
      rw [List.find?_singleton]
      by_cases hmatch : nameMatches name lfn (shortRecord (shortName name) attr d) = true
      · rw [if_pos hmatch, if_pos ⟨hroom, hmatch⟩]
        rfl
      · rw [if_neg hmatch, if_neg fun h => hmatch h.2]
        rfl
    · rename_i hroom
      rw [if_neg fun h => hroom h.1]
      rfl

/-- The attribute of a new record. -/
def newAttr (flags : UInt32) : UInt8 :=
  if flags &&& vfsDirectory ≠ 0 then attrDirectory else attrArchive

theorem newAttr_named (flags : UInt32) : newAttr flags &&& attrVolumeId = 0 := by
  unfold newAttr
  split <;> rfl

theorem newAttr_directory (flags : UInt32) :
    newAttr flags &&& attrDirectory ≠ 0 ↔ flags &&& vfsDirectory ≠ 0 := by
  unfold newAttr
  split
  · rename_i h
    exact iff_of_true (by decide) h
  · rename_i h
    exact iff_of_false (by decide) h

/-- A call that returns 0 has found no entry of the name and written a new one. -/
theorem fat32Create_entered (hok : ∀ n, dev.ok n = true) (hformat : Formatted st.fs)
    (hroom : TwoFree st.pfa) (hdata : parent.data = some dir)
    (hchain : DirChain st dir.firstCluster chain) (hfuel : chain.length < fuel)
    (hzeros : EndsInZeros (dirRecords st chain)) (hname : AsciiName name) {flags : UInt32}
    (h : fat32Create dev fuel st parent name flags = some (0, st')) :
    (∀ hit ∈ scanned (dirRecords st chain) .clear, ¬ nameMatches name hit.2 hit.1 = true) ∧
      ∃ d chain' gap rest, Entered st st' dir.firstCluster chain chain'
          (beforeEnd (dirRecords st chain)) gap
          ((entryRecords name (newAttr flags) d).take st.fs.bs.entriesPerCluster.toNat) rest ∧
        (gap = [] ∧ 1 + lfnEntries name ≤ st.fs.bs.entriesPerCluster.toNat ↔
          (beforeEnd (dirRecords st chain)).length % st.fs.bs.entriesPerCluster.toNat +
            (1 + lfnEntries name) ≤ st.fs.bs.entriesPerCluster.toNat) := by
  unfold fat32Create at h
  split at h
  · cases h
  · split at h
    · cases h
    · cases h
    · rename_i t hfind
      have hsame := fat32Scan_same hfind
      have hnone := fat32Finddir_none hok hformat.mounted hroom hdata hchain.isChain hfuel hfind
      have hfew : 1 + lfnEntries name < 128 := by
        have hle := hname.le
        unfold lfnEntries
        split <;> omega
      have hrecords : dirRecords t chain = beforeEnd (dirRecords st chain) ++
          (dirRecords st chain).dropWhile (· 0 ≠ 0) := by
        rw [dirRecords_same hsame, beforeEnd_append]
      obtain ⟨d, chain', gap, rest, hentered, hgap⟩ := fat32CreateEntry_entered hok
        (by rwa [hsame.fs]) hdata (hchain.same hsame) hrecords (beforeEnd_ne_zero _) hzeros
        (by rw [hsame.fs]) hfew h
      exact ⟨hnone, d, chain', gap, rest, { hentered with fs := hentered.fs.trans hsame.fs }, hgap⟩

/-- Two lists with one more element than a third one. -/
theorem eq_of_insert {α : Type*} {xs ys : List α} {a b : α}
    (h : xs ++ a :: ys = xs ++ ys ++ [b]) : a = b := by
  have hperm : (a :: (xs ++ ys)).Perm (b :: (xs ++ ys)) := by
    refine List.perm_middle.symm.trans ?_
    rw [h]
    exact List.perm_append_singleton b (xs ++ ys)
  exact (Multiset.cons_inj_left (xs ++ ys : Multiset α)).mp (Multiset.coe_eq_coe.mpr hperm)

/-- `smallDisk` with 15 files, `A` to `O`, in its root directory of 16 records. -/
def crowdedDisk (a : ℕ) : UInt8 :=
  if 1024 ≤ a ∧ a < 1504 then
    if a % 32 = 0 then UInt8.ofNat (0x41 + (a - 1024) / 32) else if a % 32 ≤ 11 then 0x20 else 0
  else smallDisk 1 a

def crowdedVolume : ℤ × Option Node × Volume := fat32Mount goodDevice (unmounted crowdedDisk) none

def crowdedRoot : Node := crowdedVolume.2.1.getD ⟨0, [], 0, 0, 0, none⟩

end Rhoudveine.Fat32
