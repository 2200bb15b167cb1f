import Rhoudveine.Fat32.Listing
import Rhoudveine.Lib.Rounds

/-!
# Walks that end

`fat32_finddir`, `fat32_readdir` and the search of `fat32_create_entry` for free entries follow
the links of the FAT, which may lead in a circle.
-/

namespace Rhoudveine.Fat32
open Fs Mm LittleEndian Search

/-! ## The walk -/

/-- Cluster number `k` of the walk from `c` along the links. -/
def clusterAt (st : Volume) (c : UInt32) (k : ℕ) : UInt32 := (fatLink st)^[k] c

theorem clusterAt_succ (st : Volume) (c : UInt32) (k : ℕ) :
    clusterAt st c (k + 1) = fatLink st (clusterAt st c k) :=
  Function.iterate_succ_apply' (fatLink st) k c

/-- The first `k` clusters of the walk. -/
def walked (st : Volume) (c : UInt32) (k : ℕ) : List UInt32 := (List.range k).map (clusterAt st c)

theorem dirRecords_walked_succ (st : Volume) (c : UInt32) (k : ℕ) :
    dirRecords st (walked st c (k + 1)) =
      dirRecords st (walked st c k) ++ clusterRecords st (clusterAt st c k) := by
  unfold dirRecords walked
  rw [List.range_succ, List.map_append, List.flatMap_append, List.map_singleton,
    List.flatMap_singleton]

/-! ## The calls -/

inductive DirCall
  | finddir (name : Str)
  | readdir (index : UInt32)
  | createEntry (name : Str) (attr : UInt8)

/-- The call on a node returns. -/
def Returns (dev : Device) (st : Volume) (node : Node) : DirCall → Prop
  | .finddir name => ∃ fuel, (fat32Finddir dev fuel st node name).isSome
  | .readdir index => ∃ fuel, (fat32Readdir dev fuel st node index).isSome
  | .createEntry name attr => ∃ fuel, (fat32CreateEntry dev fuel st node name attr).isSome

/-- The scan goes no further. -/
def Scan.Ended : Scan → Prop
  | .next _ _ => False
  | _ => True

/-- The records of a cluster on the disk, as the search for free entries reads them. -/
def freeSlots (st : Volume) (c : UInt32) (needed : ℕ) : Option ℕ :=
  findSlots (fun i => st.disk (clusterStart st.fs c + i)) st.fs.bs.entriesPerCluster.toNat needed

/-- Cluster number `k` of the walk decides the call: the scan of all records up to its last one
meets the end of the directory or what it looks for, or the cluster has enough free entries. -/
def Decided (st : Volume) (c : UInt32) (k : ℕ) : DirCall → Prop
  | .finddir name =>
    (scanList (fun _ => nameMatches name) (dirRecords st (walked st c (k + 1))) 0 .clear).Ended
  | .readdir index =>
    (scanList (fun seen _ _ => seen = index) (dirRecords st (walked st c (k + 1))) 0 .clear).Ended
  | .createEntry name _ => (freeSlots st (clusterAt st c k) (1 + lfnEntries name)).isSome

/-- After finitely many links the walk from `c` comes to an end mark, to a cluster that cannot be
read, or to one that decides the call. -/
def WalkEnds (dev : Device) (st : Volume) (c : UInt32) (call : DirCall) : Prop :=
  ∃ k, endOfChain ≤ clusterAt st c k ∨ dev.ok (st.transfers + k) = false ∨ Decided st c k call

/-! ## Scans -/

variable {dev : Device} {st : Volume} {c : UInt32} {page : UInt64}
  {accept : UInt32 → Lfn → Record → Bool}

/-- What a scan has when it comes to a cluster. -/
structure ScanState where
  cluster : UInt32
  buf : ℕ → UInt8
  seen : UInt32
  lfn : Lfn
  vol : Volume

/-- The state at cluster number `k` of the walk. -/
structure ScanAt (accept : UInt32 → Lfn → Record → Bool) (st : Volume) (c : UInt32) (k : ℕ)
    (t : ScanState) : Prop where
  cluster : t.cluster = clusterAt st c k
  same : SameVolume st t.vol
  transfers : t.vol.transfers = st.transfers + k
  scanned : scanList accept (dirRecords st (walked st c k)) 0 .clear = .next t.seen t.lfn

/-- A scan leaves its loop at cluster number `k`. -/
def ScanStops (dev : Device) (accept : UInt32 → Lfn → Record → Bool) (st : Volume) (c : UInt32)
    (k : ℕ) : Prop :=
  endOfChain ≤ clusterAt st c k ∨ dev.ok (st.transfers + k) = false ∨
    (scanList accept (dirRecords st (walked st c (k + 1))) 0 .clear).Ended

/-- The scan of the entries of a cluster that has been read. -/
theorem ScanAt.entries
    (haccept : ∀ seen lfn r r', r.Same r' → accept seen lfn r = accept seen lfn r')
    (hmounted : Mounted st.fs) {k : ℕ} {t : ScanState} (h : ScanAt accept st c k t)
    {buf : ℕ → UInt8} (hbuf : ∀ i < 512 * t.vol.fs.bs.sectorsPerCluster.toNat,
      buf i = t.vol.disk (clusterStart t.vol.fs t.cluster + i)) :
    ScanAlike (scanEntries accept buf t.vol.fs.bs.entriesPerCluster.toNat 0 t.seen t.lfn)
      (scanList accept (dirRecords st (walked st c (k + 1))) 0 .clear) := by
  have hmounted' : Mounted t.vol.fs := by
    rw [h.same.fs]
    exact hmounted
  have hrecords : clusterRecords t.vol t.cluster = clusterRecords st (clusterAt st c k) := by
    unfold clusterRecords
    rw [h.same.fs, h.same.disk, h.cluster]
  have halike := scanList_alike haccept (clusterRecords_same hmounted' hbuf) t.seen t.lfn
  rw [← scanEntries_eq, hrecords] at halike
  rw [dirRecords_walked_succ, scanList_append, h.scanned]
  exact halike

theorem scanChain_rounds
    (haccept : ∀ seen lfn r r', r.Same r' → accept seen lfn r = accept seen lfn r')
    (hmounted : Mounted st.fs) (c : UInt32) (page : UInt64) :
    Rounds (fun fuel (t : ScanState) =>
        scanChain dev accept page fuel t.cluster t.buf t.seen t.lfn t.vol)
      (ScanAt accept st c) (ScanStops dev accept st c) where
  zero _ := rfl
  leave k t h hstop n := by
    rw [scanChain]
    by_cases hend : t.cluster ≥ endOfChain
    · rw [if_pos hend]
      rfl
    · obtain ⟨buf, u, hread, hsame, -, -, hbuf⟩ :=
        @fat32ReadCluster_spec dev t.vol t.cluster page t.buf
      rw [if_neg hend, hread]
      cases hok : dev.ok t.vol.transfers with
      | false => rfl
      | true =>
        dsimp only
        -- the buffer and the records of the cluster are scanned alike
        have halike := h.entries haccept hmounted (hbuf hok)
        rw [← hsame.fs] at halike
        rcases hstop with hend' | hfail | hended
        · rw [← h.cluster] at hend'
          exact absurd hend' hend
        · rw [← h.transfers, hok] at hfail
          cases hfail
        · generalize scanList accept (dirRecords st (walked st c (k + 1))) 0 .clear = out at *
          generalize scanEntries accept buf u.fs.bs.entriesPerCluster.toNat 0 t.seen t.lfn = out'
            at *
          cases halike with
          | stop => rfl
          | hit hr => rfl
          | next => cases hended
  next k t h hstop := by
    unfold ScanStops at hstop
    simp only [not_or, ← h.cluster, ← h.transfers, Bool.not_eq_false] at hstop
    obtain ⟨hend, hok, hended⟩ := hstop
    obtain ⟨buf, u, hread, hsame, -, htransfers, hbuf⟩ :=
      @fat32ReadCluster_spec dev t.vol t.cluster page t.buf
    have halike := h.entries haccept hmounted (hbuf hok)
    rw [← hsame.fs] at halike
    generalize hout : scanList accept (dirRecords st (walked st c (k + 1))) 0 .clear = out at *
    generalize hscan : scanEntries accept buf u.fs.bs.entriesPerCluster.toNat 0 t.seen t.lfn = out'
      at *
    have hboth := h.same.trans hsame
    have hcached : u.fs.fatCacheValid = true := by
      rw [hboth.fs]
      exact hmounted.cached
    obtain ⟨hlink, hget⟩ := @fat32GetFatEntry_cached u hcached t.cluster
    cases halike with
    | stop => exact absurd trivial hended
    | hit hr => exact absurd trivial hended
    | next =>
      rename_i seen lfn
      refine ⟨⟨(fat32GetFatEntry u t.cluster).1, buf, seen, lfn, (fat32GetFatEntry u t.cluster).2⟩,
        ⟨?_, hboth.trans hget, ?_, hout⟩, fun n => ?_⟩
      · dsimp only
        rw [hlink, hboth.fatLink, h.cluster, clusterAt_succ]
      · dsimp only
        rw [fat32GetFatEntry_transfers, htransfers, h.transfers, Nat.add_assoc]
      · dsimp only
        rw [scanChain, if_neg hend, hread, hok]
        dsimp only
        rw [hscan]

/-- A call that takes a buffer for a loop over the directory of its node. -/
theorem buffered_returns {β γ : Type*} {call : ℕ → Option β} {loop : NodeData → ℕ → Option γ}
    {Stops : NodeData → Prop} {node : Node} (hnull : node.data = none → (call 0).isSome)
    (hfull : ∀ dir, node.data = some dir → (pfaAlloc st.pfa).1 = 0 → (call 0).isSome)
    (hloop : ∀ dir, node.data = some dir → (pfaAlloc st.pfa).1 ≠ 0 →
      ∀ fuel, (call fuel).isSome = (loop dir fuel).isSome)
    (hstops : ∀ dir, (∃ fuel, (loop dir fuel).isSome) ↔ Stops dir) :
    (∃ fuel, (call fuel).isSome) ↔
      ∀ dir, node.data = some dir → (pfaAlloc st.pfa).1 ≠ 0 → Stops dir := by
  cases hdata : node.data with
  | none => exact iff_of_true ⟨0, hnull hdata⟩ fun dir hdir => by cases hdir
  | some dir =>
    by_cases hpage : (pfaAlloc st.pfa).1 = 0
    · exact iff_of_true ⟨0, hfull dir hdata hpage⟩ fun dir _ hne => absurd hpage hne
    · simp only [hloop dir hdata hpage]
      refine (hstops dir).trans ⟨fun hstop dir' hdir' _ => ?_, fun hall => hall dir rfl hpage⟩
      obtain rfl := Option.some.inj hdir'
      exact hstop

theorem fat32Scan_returns
    (haccept : ∀ seen lfn r r', r.Same r' → accept seen lfn r = accept seen lfn r')
    (hmounted : Mounted st.fs) (node : Node) :
    (∃ fuel, (fat32Scan dev accept fuel st node).isSome) ↔
      ∀ dir, node.data = some dir → (pfaAlloc st.pfa).1 ≠ 0 →
        ∃ k, ScanStops dev accept st dir.firstCluster k := by
  refine buffered_returns (fun hdata => ?_) (fun dir hdata hpage => ?_)
    (fun dir hdata hpage fuel => ?_) fun dir =>
      (@scanChain_rounds dev st.alloc.2 accept haccept hmounted dir.firstCluster
        (pfaAlloc st.pfa).1).returns_iff (t := ⟨dir.firstCluster,
          dev.leftover (pfaAlloc st.pfa).1, 0, .clear, st.alloc.2⟩)
        ⟨rfl, SameVolume.refl _, rfl, rfl⟩
  · unfold fat32Scan
    rw [hdata]
    rfl
  · unfold fat32Scan
    rw [hdata]
    dsimp only [Volume.alloc]
    rw [if_pos hpage]
    rfl
  · unfold fat32Scan
    rw [hdata]
    dsimp only [Volume.alloc]
    rw [if_neg hpage]
    split <;> rename_i heq <;> rw [heq] <;> rfl

/-! ## The search for free entries -/

theorem freeRun_congr {buf buf' : ℕ → UInt8} {needed rounds j n : ℕ}
    (h : ∀ i, j ≤ i → i < j + rounds → recordAt buf i 0 = recordAt buf' i 0) :
    freeRun buf needed rounds j n = freeRun buf' needed rounds j n := by
  induction rounds generalizing j n with
  | zero => rfl
  | succ rounds ih =>
    have hslot : freeSlot buf j = freeSlot buf' j := by
      unfold freeSlot
      rw [h j le_rfl (by omega)]
    rw [freeRun, freeRun, hslot, ih fun i hi hi' => h i (by omega) (by omega)]

theorem findSlots_congr {buf buf' : ℕ → UInt8} {entries needed : ℕ}
    (h : ∀ i < entries, recordAt buf i 0 = recordAt buf' i 0) :
    findSlots buf entries needed = findSlots buf' entries needed := by
  apply firstSome_congr
  intro i _ hi
  have hslot : freeSlot buf i = freeSlot buf' i := by
    unfold freeSlot
    rw [h i (by omega)]
  have hrun : freeRun buf needed (entries - i) i 0 = freeRun buf' needed (entries - i) i 0 :=
    freeRun_congr fun j _ hj => h j (by omega)
  rw [hslot, hrun]

/-- What the search has when it comes to a cluster. -/
structure SearchState where
  cluster : UInt32
  buf : ℕ → UInt8
  vol : Volume

/-- The state at cluster number `k` of the walk. -/
structure SearchAt (st : Volume) (c : UInt32) (k : ℕ) (t : SearchState) : Prop where
  cluster : t.cluster = clusterAt st c k
  same : SameVolume st t.vol
  transfers : t.vol.transfers = st.transfers + k

/-- The search leaves its loop at cluster number `k`; it extends a chain that ends there. -/
def SearchStops (dev : Device) (needed : ℕ) (st : Volume) (c : UInt32) (k : ℕ) : Prop :=
  endOfChain ≤ clusterAt st c k ∨ dev.ok (st.transfers + k) = false ∨
    (freeSlots st (clusterAt st c k) needed).isSome ∨ endOfChain ≤ clusterAt st c (k + 1)

/-- The search in a cluster that has been read. -/
theorem findSlots_read (hmounted : Mounted st.fs) {vol : Volume} (hsame : SameVolume st vol)
    (c : UInt32) (needed : ℕ) {buf : ℕ → UInt8}
    (hbuf : ∀ i < 512 * vol.fs.bs.sectorsPerCluster.toNat,
      buf i = vol.disk (clusterStart vol.fs c + i)) :
    findSlots buf vol.fs.bs.entriesPerCluster.toNat needed = freeSlots st c needed := by
  rw [hsame.fs, hsame.disk] at hbuf
  rw [hsame.fs]
  apply findSlots_congr
  intro i hi
  rw [hmounted.toNat_entriesPerCluster] at hi
  exact hbuf (32 * i + 0) (by omega)

theorem SearchAt.slots (hmounted : Mounted st.fs) {k : ℕ} {t : SearchState}
    (h : SearchAt st c k t) (needed : ℕ) {buf : ℕ → UInt8}
    (hbuf : ∀ i < 512 * t.vol.fs.bs.sectorsPerCluster.toNat,
      buf i = t.vol.disk (clusterStart t.vol.fs t.cluster + i)) :
    findSlots buf t.vol.fs.bs.entriesPerCluster.toNat needed =
      freeSlots st (clusterAt st c k) needed := by
  rw [← h.cluster]
  exact findSlots_read hmounted h.same t.cluster needed hbuf

theorem findTarget_rounds (hmounted : Mounted st.fs) (c : UInt32) (page : UInt64) (needed : ℕ) :
    Rounds (fun fuel (t : SearchState) => findTarget dev page needed fuel t.cluster t.buf t.vol)
      (SearchAt st c) (SearchStops dev needed st c) where
  zero _ := rfl
  leave k t h hstop n := by
    rw [findTarget]
    by_cases hend : t.cluster ≥ endOfChain
    · rw [if_pos hend]
      rfl
    · obtain ⟨buf, u, hread, hsame, -, -, hbuf⟩ :=
        @fat32ReadCluster_spec dev t.vol t.cluster page t.buf
      rw [if_neg hend, hread]
      cases hok : dev.ok t.vol.transfers with
      | false => rfl
      | true =>
        dsimp only
        have hslots := h.slots hmounted needed (hbuf hok)
        have hboth := h.same.trans hsame
        have hcached : u.fs.fatCacheValid = true := by
          rw [hboth.fs]
          exact hmounted.cached
        obtain ⟨hlink, -⟩ := @fat32GetFatEntry_cached u hcached t.cluster
        rw [hboth.fatLink, h.cluster, ← clusterAt_succ] at hlink
        rw [hsame.fs, hslots]
        cases hfree : freeSlots st (clusterAt st c k) needed with
        | some i => rfl
        | none =>
          dsimp only
          -- the loop leaves at the end mark, a failed read, a found run or the last cluster
          rcases hstop with hend' | hfail | hfound | hlast
          · rw [← h.cluster] at hend'
            exact absurd hend' hend
          · rw [← h.transfers, hok] at hfail
            cases hfail
          · rw [hfree] at hfound
            cases hfound
          · rw [← h.cluster] at hlink
            rw [hlink, if_pos hlast]
            split <;> rfl
  next k t h hstop := by
    unfold SearchStops at hstop
    simp only [not_or, ← h.cluster, ← h.transfers, Bool.not_eq_false] at hstop
    obtain ⟨hend, hok, hnone, hnext⟩ := hstop
    obtain ⟨buf, u, hread, hsame, -, htransfers, hbuf⟩ :=
      @fat32ReadCluster_spec dev t.vol t.cluster page t.buf
    have hslots := h.slots hmounted needed (hbuf hok)
    have hboth := h.same.trans hsame
    have hcached : u.fs.fatCacheValid = true := by
      rw [hboth.fs]
      exact hmounted.cached
    obtain ⟨hlink, hget⟩ := @fat32GetFatEntry_cached u hcached t.cluster
    rw [hboth.fatLink, h.cluster, ← clusterAt_succ, ← h.cluster] at hlink
    rw [← h.cluster] at hslots
    rw [Option.not_isSome_iff_eq_none] at hnone
    refine ⟨⟨(fat32GetFatEntry u t.cluster).1, buf, (fat32GetFatEntry u t.cluster).2⟩,
      ⟨hlink, hboth.trans hget, ?_⟩, fun n => ?_⟩
    · dsimp only
      rw [fat32GetFatEntry_transfers, htransfers, h.transfers, Nat.add_assoc]
    · dsimp only
      rw [findTarget, if_neg hend, hread, hok]
      dsimp only
      rw [hsame.fs, hslots, hnone]
      dsimp only
      rw [hlink, if_neg hnext]

theorem fat32CreateEntry_returns (hmounted : Mounted st.fs) (node : Node) (name : Str)
    (attr : UInt8) :
    (∃ fuel, (fat32CreateEntry dev fuel st node name attr).isSome) ↔
      ∀ dir, node.data = some dir → (pfaAlloc st.pfa).1 ≠ 0 →
        ∃ k, SearchStops dev (1 + lfnEntries name) st dir.firstCluster k := by
  refine buffered_returns (fun hdata => ?_) (fun dir hdata hpage => ?_)
    (fun dir hdata hpage fuel => ?_) fun dir =>
      (@findTarget_rounds dev st.alloc.2 hmounted dir.firstCluster (pfaAlloc st.pfa).1
        (1 + lfnEntries name)).returns_iff (t := ⟨dir.firstCluster,
          dev.leftover (pfaAlloc st.pfa).1, st.alloc.2⟩) ⟨rfl, SameVolume.refl _, rfl⟩
  · unfold fat32CreateEntry
    rw [hdata]
    rfl
  · unfold fat32CreateEntry
    rw [hdata]
    dsimp only [Volume.alloc]
    rw [if_pos hpage]
    rfl
  · unfold fat32CreateEntry
    rw [hdata]
    dsimp only [Volume.alloc]
    rw [if_neg hpage]
    split <;> rename_i heq <;> rw [heq] <;> rfl

/-- The end mark behind a cluster is the next one of the walk. -/
theorem searchStops_iff {needed : ℕ} :
    (∃ k, SearchStops dev needed st c k) ↔
      ∃ k, endOfChain ≤ clusterAt st c k ∨ dev.ok (st.transfers + k) = false ∨
        (freeSlots st (clusterAt st c k) needed).isSome := by
  constructor
  · rintro ⟨k, hend | hfail | hfound | hnext⟩
    · exact ⟨k, Or.inl hend⟩
    · exact ⟨k, Or.inr (Or.inl hfail)⟩
    · exact ⟨k, Or.inr (Or.inr hfound)⟩
    · exact ⟨k + 1, Or.inl hnext⟩
  · rintro ⟨k, hend | hfail | hfound⟩
    · exact ⟨k, Or.inl hend⟩
    · exact ⟨k, Or.inr (Or.inl hfail)⟩
    · exact ⟨k, Or.inr (Or.inr (Or.inl hfound))⟩

/-! ## Which calls return -/

/-- A call returns exactly if the walk through its directory ends. -/
theorem dirCall_returns_iff (hmounted : Mounted st.fs) (node : Node) (call : DirCall) :
    Returns dev st node call ↔
      ∀ dir, node.data = some dir → (pfaAlloc st.pfa).1 ≠ 0 →
        WalkEnds dev st dir.firstCluster call := by
  cases call with
  | finddir name =>
    exact fat32Scan_returns (fun _ lfn _ _ hr => hr.nameMatches name lfn) hmounted node
  | readdir index => exact fat32Scan_returns (fun _ _ _ _ _ => rfl) hmounted node
  | createEntry name attr =>
    simp only [Returns, fat32CreateEntry_returns hmounted, searchStops_iff]
    rfl

/-- A root directory with an end mark. -/
theorem dirCall_returns_fileVolume :
    Returns goodDevice (fileVolume 0x41).2.2 (fileRoot 0x41) (.finddir (str "B")) ∧
      Returns goodDevice (fileVolume 0x41).2.2 (fileRoot 0x41) (.readdir 7) ∧
      Returns goodDevice (fileVolume 0x41).2.2 (fileRoot 0x41) (.createEntry (str "B") 0) := by
  have hmounted := fileVolume_mounted 0x41 (by decide +kernel)
  have hcall (call : DirCall) : Returns goodDevice (fileVolume 0x41).2.2 (fileRoot 0x41) call := by
    refine (dirCall_returns_iff hmounted (fileRoot 0x41) call).mpr fun dir hdir _ => ?_
    have hdata : (fileRoot 0x41).data = some ⟨2, 0⟩ := by decide +kernel
    obtain rfl := Option.some.inj (hdata.symm.trans hdir)
    exact ⟨1, Or.inl (by decide +kernel)⟩
  exact ⟨hcall _, hcall _, hcall _⟩

/-! ## A circle -/

/-- A small volume whose root directory is a cluster linked to itself and full of volume labels. -/
def circleDisk (a : ℕ) : UInt8 :=
  if a = 520 then 2
  else if 520 < a ∧ a < 524 then 0
  else if 1024 ≤ a ∧ a < 1536 then if a % 32 = 0 then 0x41 else if a % 32 = 11 then 0x08 else 0
  else smallDisk 1 a

def circleVolume : ℤ × Option Node × Volume := fat32Mount goodDevice (unmounted circleDisk) none

def circleRoot : Node := circleVolume.2.1.getD ⟨0, [], 0, 0, 0, none⟩

/-- Volume labels are passed over. -/
theorem scanList_labels {rs : List Record} (h : ∀ r ∈ rs, r 0 ≠ 0 ∧ r.attr = attrVolumeId) :
    scanList accept rs 0 .clear = .next 0 .clear := by
  induction rs with
  | nil => rfl
  | cons r rs ih =>
    obtain ⟨hfirst, hattr⟩ := h r List.mem_cons_self
    rw [scanList, if_neg hfirst, hattr]
    exact ih fun x hx => h x (List.mem_cons_of_mem r hx)

theorem circle_clusterAt (k : ℕ) : clusterAt circleVolume.2.2 2 k = 2 := by
  have hlink : fatLink circleVolume.2.2 2 = 2 := by decide +kernel
  exact Function.iterate_fixed hlink k

theorem circle_not_scanStops (k : ℕ) : ¬ ScanStops goodDevice accept circleVolume.2.2 2 k := by
  have hlabels : ∀ r ∈ clusterRecords circleVolume.2.2 2, r 0 ≠ 0 ∧ r.attr = attrVolumeId := by
    have hall : (clusterRecords circleVolume.2.2 2).all
        (fun r => decide (r 0 ≠ 0 ∧ r.attr = attrVolumeId)) = true := by
      decide +kernel
    exact fun r hr => of_decide_eq_true (List.all_eq_true.mp hall r hr)
  rintro (hend | hfail | hended)
  · rw [circle_clusterAt] at hend
    exact absurd hend (by decide)
  · cases hfail
  · rw [scanList_labels] at hended
    · exact hended
    · intro r hr
      obtain ⟨x, hx, hr⟩ := List.mem_flatMap.mp hr
      obtain ⟨j, -, rfl⟩ := List.mem_map.mp hx
      rw [circle_clusterAt] at hr
      exact hlabels r hr

theorem circle_not_searchStops (needed k : ℕ) :
    ¬ SearchStops goodDevice needed circleVolume.2.2 2 k := by
  have hused : ∀ i < circleVolume.2.2.fs.bs.entriesPerCluster.toNat,
      freeSlot (fun a => circleVolume.2.2.disk (clusterStart circleVolume.2.2.fs 2 + a)) i =
        false := by
    decide +kernel
  rintro (hend | hfail | hfound | hnext)
  · rw [circle_clusterAt] at hend
    exact absurd hend (by decide)
  · cases hfail
  · rw [circle_clusterAt] at hfound
    have hnone : freeSlots circleVolume.2.2 2 needed = none := by
      apply firstSome_eq_none.mpr
      intro i _ hi
      rw [hused i (by omega)]
      rfl
    rw [hnone] at hfound
    cases hfound
  · rw [circle_clusterAt] at hnext
    exact absurd hnext (by decide)

/-- In a circle without an end none of the three returns, although all transfers succeed. -/
theorem circle_not_returns : circleVolume.1 = 0 ∧
    ∀ call, ¬ Returns goodDevice circleVolume.2.2 circleRoot call := by
  have hzero : circleVolume.1 = 0 := by decide +kernel
  have hmounted : Mounted circleVolume.2.2.fs := ⟨by decide +kernel, by decide +kernel⟩
  have hdata : circleRoot.data = some ⟨2, 0⟩ := by decide +kernel
  have hpage : (pfaAlloc circleVolume.2.2.pfa).1 ≠ 0 := by decide +kernel
  refine ⟨hzero, fun call hreturns => ?_⟩
  cases call with
  | finddir name =>
    obtain ⟨k, hk⟩ := (fat32Scan_returns (fun _ lfn _ _ hr => hr.nameMatches name lfn) hmounted
      circleRoot).mp hreturns _ hdata hpage
    exact circle_not_scanStops k hk
  | readdir index =>
    obtain ⟨k, hk⟩ := (fat32Scan_returns (fun _ _ _ _ _ => rfl) hmounted circleRoot).mp hreturns _
      hdata hpage
    exact circle_not_scanStops k hk
  | createEntry name attr =>
    obtain ⟨k, hk⟩ := (fat32CreateEntry_returns hmounted circleRoot name attr).mp hreturns _ hdata
      hpage
    exact circle_not_searchStops _ k hk

end Rhoudveine.Fat32
