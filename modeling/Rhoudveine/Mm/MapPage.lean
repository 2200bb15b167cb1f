import Rhoudveine.Mm.Client
import Rhoudveine.Mm.PageTree

/-!
# `map_page` as an update of a flat map

Three descents reach the last table, and the leaf write changes the translation of the page
of `virt_addr` alone.  A run of calls therefore updates the initial translation by the calls
that did not run out of frames, the last call for a page winning.
-/

namespace Rhoudveine.Mm
open Words Radix

/-! ## Descending -/

/-- Every entry on the walk `p` is present and allows user access. -/
def Vm.ParentsUser (vm : Vm) (p : List (Fin 512)) : Prop :=
  ∀ q j r c, p = q ++ j :: r → walk nextTable vm.entry vm.root q = some c →
    bit (vm.entry c j) 0 = true ∧ bit (vm.entry c j) 2 = true

/-- `map_page`, started in `vm₀`, has descended along `p` to the table `k`. -/
structure Reached (vm₀ vm : Vm) (flags : UInt64) (p : List (Fin 512)) (k : UInt64) : Prop where
  ok : vm.TreeOk
  ext : Extends vm₀ vm
  walk : walk nextTable vm.entry vm.root p = some k
  user : bit flags 2 = true → vm.ParentsUser p
  count : vm₀.pfa.lowFreeCount.toNat ≤ vm.pfa.lowFreeCount.toNat + p.length

/-- A present entry above the last level of a walk that meets no large page is none. -/
theorem Reached.not_large {vm₀ vm : Vm} {flags k : UInt64} {p r : List (Fin 512)} {i : Fin 512}
    (h : Reached vm₀ vm flags p k) (hlen : p.length < 3) (hw : (p ++ i :: r).length = 4)
    (hno : vm₀.NoLarge (p ++ i :: r)) (hpres : bit (vm.entry k i) 0 = true) :
    bit (vm.entry k i) 7 = false := by
  have hr : r ≠ [] := by
    rintro rfl
    rw [List.length_append, List.length_singleton] at hw
    omega
  exact h.ext.noLarge _ hw hno p i r k rfl hr h.walk hpres

theorem Reached.start {vm : Vm} (hok : vm.TreeOk) (flags : UInt64) :
    Reached vm vm flags [] vm.root where
  ok := hok
  ext := Extends.refl vm
  walk := rfl
  user _ q j r c h _ := by simp at h
  count := le_rfl

theorem walk_prefix {vm : Vm} {p q r : List (Fin 512)} {j : Fin 512} {k : UInt64}
    (hp : Radix.walk nextTable vm.entry vm.root p = some k) (hpq : p = q ++ j :: r) :
    ∃ c d, Radix.walk nextTable vm.entry vm.root q = some c ∧ nextTable (vm.entry c j) = some d := by
  rw [hpq, walk_append] at hp
  obtain ⟨c, hc, hrest⟩ := Option.bind_eq_some_iff.mp hp
  obtain ⟨d, hd, -⟩ := Option.bind_eq_some_iff.mp hrest
  exact ⟨c, d, hc, hd⟩

theorem present_of_nextTable {e d : UInt64} (h : nextTable e = some d) : bit e 0 = true := by
  by_contra hno
  rw [nextTable_of_not_present (Bool.eq_false_iff.mpr hno)] at h
  cases h

/-- The parents of a walk that is extended by one entry. -/
theorem parentsUser_snoc {vm vm' : Vm} (hext : Extends vm vm') {p : List (Fin 512)} {k c : UInt64}
    (hp : Radix.walk nextTable vm.entry vm.root p = some k) (hlen : p.length < 3) {i : Fin 512}
    (hp' : Radix.walk nextTable vm'.entry vm'.root (p ++ [i]) = some c)
    (hparents : vm.ParentsUser p) (huser : bit (vm'.entry k i) 2 = true) :
    vm'.ParentsUser (p ++ [i]) := by
  intro q j r d hq hd
  have hwalk := hext.walk p k hlen.le hp
  rcases List.eq_nil_or_concat' r with rfl | ⟨r', i', rfl⟩
  · -- the last entry
    obtain ⟨rfl, hij⟩ := List.append_inj' hq rfl
    obtain rfl := (List.cons.inj hij).1
    rw [hwalk] at hd
    rw [← Option.some.inj hd]
    rw [walk_snoc hwalk] at hp'
    exact ⟨present_of_nextTable hp', huser⟩
  · rw [← List.cons_append, ← List.append_assoc] at hq
    obtain ⟨hpq, -⟩ := List.append_inj' hq rfl
    have hqlen : q.length ≤ 2 := by
      rw [hpq, List.length_append, List.length_cons] at hlen
      omega
    obtain ⟨d', -, hd', -⟩ := walk_prefix hp hpq
    have hdd := hext.walk q d' (by omega) hd'
    rw [hd] at hdd
    rw [Option.some.inj hdd]
    obtain ⟨hbit, huser'⟩ := hparents q j r' d' hpq hd'
    exact hext.user d' j (Vm.isTable_of_walk (by omega) hd') hbit huser'

/-- One level either runs out of frames and changes nothing, or reaches the next table. -/
theorem Reached.descend {vm₀ vm : Vm} {flags : UInt64} {p : List (Fin 512)} {k : UInt64}
    (h : Reached vm₀ vm flags p k) (hlen : p.length < 3) {i : Fin 512} {r : List (Fin 512)}
    (hw : (p ++ i :: r).length = 4) (hno : vm₀.NoLarge (p ++ i :: r)) :
    (descend vm flags k i = (none, vm) ∧ vm.pfa.lowFreeCount.toNat = 0) ∨
      ∃ c vm', descend vm flags k i = (some c, vm') ∧ Reached vm₀ vm' flags (p ++ [i]) c := by
  have hk := walk_aligned vm.root_aligned h.walk
  rcases descend_cases vm flags k i with ⟨hpres, heq⟩ | ⟨hnot, hz, heq⟩ | ⟨hnot, hz, heq⟩
  · right
    have hlarge := h.not_large hlen hw hno hpres
    obtain ⟨hok, hext, -⟩ := orEntry_spec h.ok h.walk hlen flags hlarge
    have hwalk := hext.walk p k hlen.le h.walk
    have hnext : nextTable (vm.entry k i ||| parentFlags flags) =
        some ((vm.entry k i ||| parentFlags flags) &&& paddrMask) := by
      rw [nextTable, bit_or, bit_or, hpres, hlarge, bit_parentFlags, bit_parentFlags]
      simp
    have hwalk' := walk_snoc hwalk i
    rw [entry_setEntry, hnext] at hwalk'
    refine ⟨_, _, heq, hok, h.ext.trans hext, hwalk', ?_, ?_⟩
    · intro huser
      apply parentsUser_snoc hext h.walk hlen hwalk' (h.user huser)
      rw [entry_setEntry, bit_or, bit_parentFlags, huser]
      simp
    · have := h.count
      rw [List.length_append, Vm.setEntry_pfa]
      omega
  · left
    rw [pfaAllocLow_of_zero h.ok.wf hz] at heq
    rcases pfaAllocLow_count h.ok.wf with ⟨hne, -⟩ | ⟨-, hcount⟩
    · exact absurd hz hne
    · exact ⟨heq, hcount⟩
  · right
    obtain ⟨hok, hext, hwalk, -⟩ := newEntry_spec h.ok h.walk hlen flags hnot hz rfl
    have hfree := ((pfaAllocLow_lowest h.ok.wf).2 hz).1
    have hmask := tableEntry_and_paddrMask hfree.1 flags hfree.2.1
    rw [hmask] at heq
    refine ⟨_, _, heq, hok, h.ext.trans hext, hwalk, ?_, ?_⟩
    · intro huser
      apply parentsUser_snoc hext h.walk hlen hwalk (h.user huser)
      rw [entry_setEntry, bit_user_tableEntry hfree.1, huser]
    · rcases pfaAllocLow_count h.ok.wf with ⟨-, hcount⟩ | ⟨hz', -⟩
      · have := h.count
        rw [List.length_append, List.length_singleton, Vm.setEntry_pfa, Vm.clearFrame_pfa]
        omega
      · exact absurd hz' hz

/-! ## The leaf -/

/-- The leaf write makes the walk `p ++ [i]` find the new leaf and no other walk find
anything else. -/
theorem Reached.leaf {vm₀ vm : Vm} {flags : UInt64} {p : List (Fin 512)} {k : UInt64}
    (h : Reached vm₀ vm flags p k) (hlen : p.length = 3) (i : Fin 512) {physAddr : UInt64}
    (hphys : physAddr.toNat % 4096 = 0) (hpres : bit flags 0 = true) {vm' : Vm}
    (hvm' : vm.setEntry k i (physAddr ||| flags) = vm') :
    vm'.TreeOk ∧ (vm₀.UserOk → vm'.UserOk) ∧ Keeps vm₀ vm' ∧
      find nextTable isLeaf vm'.entry vm'.root (p ++ [i]) = some (physAddr ||| flags, 0) ∧
      (∀ w, w.length = 4 → w ≠ p ++ [i] →
        find nextTable isLeaf vm'.entry vm'.root w =
          find nextTable isLeaf vm₀.entry vm₀.root w) ∧
      ∀ q, q.length ≤ 3 →
        Radix.walk nextTable vm'.entry vm.root q = Radix.walk nextTable vm.entry vm.root q := by
  have hk := walk_aligned vm.root_aligned h.walk
  have hkTable := Vm.isTable_of_walk hlen.le h.walk
  have hroot : vm'.root = vm.root := by rw [← hvm', Vm.setEntry, Vm.root, Vm.root]
  have hpfa : vm'.pfa = vm.pfa := by rw [← hvm', Vm.setEntry]
  have hnew : vm'.entry k i = physAddr ||| flags := by rw [← hvm', entry_setEntry]
  have hentry (c : UInt64) (j : Fin 512) (hc : vm.IsTable c) (hne : c ≠ k ∨ j ≠ i) :
      vm'.entry c j = vm.entry c j := by
    rw [← hvm', entry_setEntry_of_ne vm hk hc.aligned _ hne]
  have hnext (c : UInt64) (j : Fin 512) (hc : vm.IsTable c) (hne : c ≠ k ∨ j ≠ i) :
      nextTable (vm'.entry c j) = nextTable (vm.entry c j) := by rw [hentry c j hc hne]
  -- the walks to the tables do not go through the leaf
  have hwalk (q : List (Fin 512)) (hq : q.length ≤ 3) :
      Radix.walk nextTable vm'.entry vm.root q = Radix.walk nextTable vm.entry vm.root q := by
    apply h.ok.tree.walk_of_not_through h.walk hlen.le hnext (by omega)
    intro r hr
    rw [hr, List.length_append, List.length_cons] at hq
    omega
  have htree : Tree nextTable vm'.entry vm.root 3 := h.ok.tree.of_walk hwalk
  have htable (c : UInt64) : vm'.IsTable c ↔ vm.IsTable c := by
    unfold Vm.IsTable
    rw [hroot]
    exact isTable_congr hwalk
  have hnotThrough {w : List (Fin 512)} (hw : w.length = 4) (hne : w ≠ p ++ [i]) :
      ∀ r, w ≠ p ++ i :: r := by
    rintro r rfl
    rw [List.length_append, List.length_cons] at hw
    have hr : r = [] := List.length_eq_zero_iff.mp (by omega)
    exact hne (by rw [hr])
  have hfind {w : List (Fin 512)} (hw : w.length = 4) (hne : w ≠ p ++ [i]) :
      find nextTable isLeaf vm'.entry vm.root w = find nextTable isLeaf vm.entry vm.root w :=
    h.ok.tree.find_of_not_through h.walk hlen.le hentry (by omega) (hnotThrough hw hne)
  have hself : find nextTable isLeaf vm'.entry vm.root (p ++ [i]) = some (physAddr ||| flags, 0) := by
    have hp := (hwalk p hlen.le).trans h.walk
    have hleaf : isLeaf 0 (physAddr ||| flags) = true := by
      rw [isLeaf, bit_or, hpres, Bool.or_true]
    rw [find_append nextTable_of_isLeaf hp (List.cons_ne_nil _ _), find, hnew, List.length_nil,
      if_pos hleaf]
  refine ⟨⟨hpfa ▸ h.ok.wf, hroot ▸ htree, ?_⟩, ?_, ?_, hroot ▸ hself, ?_, hwalk⟩
  · intro c hc
    rw [hpfa]
    exact h.ok.not_free c ((htable c).mp hc)
  · intro hu w e l hw hfind' hbit
    by_cases hne : w = p ++ [i]
    · -- the parents of the new leaf have been made user before
      subst hne
      rw [hroot, hself] at hfind'
      obtain ⟨rfl, rfl⟩ := Prod.mk.inj (Option.some.inj hfind')
      rw [bit_or, bit_of_aligned (k := 12) hphys (by norm_num), Bool.false_or] at hbit
      have hparents := h.user hbit
      rw [hroot]
      have hp := (hwalk p hlen.le).trans h.walk
      refine (pathAll_append _ nextTable_of_isLeaf hp (List.cons_ne_nil _ _)).mpr ⟨?_, ?_⟩
      · intro q j r d hpq hd
        have hqlen : q.length ≤ 2 := by
          rw [hpq, List.length_append, List.length_cons] at hlen
          omega
        rw [hwalk q (by omega)] at hd
        have hdk : d ≠ k := by
          rintro rfl
          have := h.ok.tree q p d (by omega) hlen.le hd h.walk
          rw [this] at hqlen
          omega
        rw [hentry d j (Vm.isTable_of_walk (by omega) hd) (Or.inl hdk)]
        exact (hparents q j r d hpq hd).2
      · have hleaf : isLeaf 0 (physAddr ||| flags) = true := by
          rw [isLeaf, bit_or, hpres, Bool.or_true]
        rw [pathAll, hnew, List.length_nil, hleaf, bit_or, hbit]
        simp
    · have hsame := h.ok.tree.on_path h.walk hlen.le hentry hw.le (hnotThrough hw hne)
      refine user_of_sameTo (h.ext.userOk hu) hw hroot ?_ ?_ hfind' hbit
      · intro q j r c hqw hc
        rw [hsame q j r c hqw hc]
        exact sameTo_refl _ _
      · intro q j r c hqw hc huser
        rw [hsame q j r c hqw hc, huser]
  · apply h.ext.toKeeps.trans
    constructor
    · rw [← hvm', Vm.setEntry]
    · intro q c hq hc
      rw [hroot, hwalk q hq, hc]
    · intro w hw hno
      refine noLarge_of_entries (hroot ▸ htree) (fun q c hq hc => ?_) ?_ hw hno
      · rw [hroot, hwalk q hq, hc]
      · intro q c j hq hc hbit hlarge
        rw [hroot, hwalk q (by omega)] at hc
        have hck : c ≠ k := by
          rintro rfl
          have := h.ok.tree q p c (by omega) hlen.le hc h.walk
          rw [this] at hq
          omega
        have hc' := Vm.isTable_of_walk (by omega) hc
        rw [hentry c j hc' (Or.inl hck)] at hbit hlarge
        exact ⟨hc', hbit, hlarge⟩
    · intro c hc
      exact Or.inl ((htable c).mp hc)
    · intro q hq
      rwa [hpfa] at hq
    · intro x hx
      rw [← hvm']
      apply setEntry_mem_of_not_inFrame vm hk
      exact hx k ((htable k).mpr hkTable)
  · intro w hw hne
    rw [hroot, hfind hw hne]
    exact h.ext.find w hw

/-! ## One call -/

/-- The indices of the tables above the last one. -/
def parentIndices (virtAddr : UInt64) : List (Fin 512) :=
  [tableIndex virtAddr 39, tableIndex virtAddr 30, tableIndex virtAddr 21]

theorem indices_eq (virtAddr : UInt64) :
    indices virtAddr = parentIndices virtAddr ++ [tableIndex virtAddr 12] := rfl

theorem length_indices (virtAddr : UInt64) : (indices virtAddr).length = 4 := rfl

/-- A call either runs out of low frames, having only added tables, or writes the leaf. -/
theorem mapPage_cases {vm : Vm} (hok : vm.TreeOk) (physAddr flags : UInt64) {virtAddr : UInt64}
    (hno : vm.NoLarge (indices virtAddr)) :
    (∃ vm', mapPage vm physAddr virtAddr flags = (false, vm') ∧ vm'.TreeOk ∧ Extends vm vm' ∧
      vm'.pfa.lowFreeCount.toNat = 0 ∧ vm.pfa.lowFreeCount.toNat ≤ 2) ∨
    (∃ vm' k, mapPage vm physAddr virtAddr flags =
        (true, vm'.setEntry k (tableIndex virtAddr 12) (physAddr ||| flags)) ∧
      Reached vm vm' flags (parentIndices virtAddr) k) := by
  have hoom {vm' : Vm} {p : List (Fin 512)} {k : UInt64} (h : Reached vm vm' flags p k)
      (hlen : p.length ≤ 2) (hzero : vm'.pfa.lowFreeCount.toNat = 0) :
      vm'.TreeOk ∧ Extends vm vm' ∧ vm'.pfa.lowFreeCount.toNat = 0 ∧
        vm.pfa.lowFreeCount.toNat ≤ 2 := by
    have := h.count
    exact ⟨h.ok, h.ext, hzero, by omega⟩
  unfold mapPage
  rcases (Reached.start hok flags).descend (by norm_num) rfl hno with
    ⟨heq, hzero⟩ | ⟨k₁, vm₁, heq, h₁⟩
  · rw [heq]
    exact Or.inl ⟨vm, rfl, hoom (Reached.start hok flags) (by norm_num) hzero⟩
  rw [heq]
  dsimp only
  rcases h₁.descend (by norm_num) rfl hno with ⟨heq, hzero⟩ | ⟨k₂, vm₂, heq, h₂⟩
  · rw [heq]
    exact Or.inl ⟨vm₁, rfl, hoom h₁ (by norm_num) hzero⟩
  rw [heq]
  dsimp only
  rcases h₂.descend (by norm_num) rfl hno with ⟨heq, hzero⟩ | ⟨k₃, vm₃, heq, h₃⟩
  · rw [heq]
    exact Or.inl ⟨vm₂, rfl, hoom h₂ (by norm_num) hzero⟩
  rw [heq]
  exact Or.inr ⟨vm₃, k₃, rfl, h₃⟩

/-- In a well-kept tree a page is user accessible exactly when its leaf is. -/
theorem translate_eq {vm : Vm} (hok : vm.UserOk) (virtAddr : UInt64) :
    vm.translate virtAddr = (vm.lookup virtAddr).map fun m => ⟨m.1, m.2, bit m.1 2⟩ := by
  unfold Vm.translate
  cases hfind : vm.lookup virtAddr with
  | none => rfl
  | some m =>
    obtain ⟨e, l⟩ := m
    have huser : vm.userPath virtAddr = bit e 2 := by
      rw [Bool.eq_iff_iff]
      constructor
      · exact fun hall => find_of_pathAll (P := fun e => bit e 2) hall hfind
      · exact hok _ e l (length_indices virtAddr) hfind
    rw [Option.map_some, Option.map_some, huser]

theorem lookup_of_extends {vm vm' : Vm} (h : Extends vm vm') (virtAddr : UInt64) :
    vm'.lookup virtAddr = vm.lookup virtAddr := h.find _ (length_indices virtAddr)

/-- `map_page` keeps the tree.  When it succeeds, the walk for the page of `virt_addr` finds
the new leaf and no other walk changes; when it runs out of frames, no walk changes. -/
theorem mapPage_spec {vm : Vm} (hok : vm.TreeOk) {physAddr virtAddr flags : UInt64}
    (hphys : physAddr.toNat % 4096 = 0) (hpres : bit flags 0 = true)
    (hno : vm.NoLarge (indices virtAddr)) {done : Bool} {vm' : Vm}
    (h : mapPage vm physAddr virtAddr flags = (done, vm')) :
    vm'.TreeOk ∧ (vm.UserOk → vm'.UserOk) ∧ Keeps vm vm' ∧ ∀ v, vm'.lookup v =
      if done = true ∧ indices v = indices virtAddr then some (physAddr ||| flags, 0)
      else vm.lookup v := by
  rcases mapPage_cases hok physAddr flags hno with ⟨vm₁, heq, hok', hext, -⟩ | ⟨vm₁, k, heq, hreach⟩
  · rw [heq] at h
    obtain ⟨rfl, rfl⟩ := Prod.mk.inj h
    refine ⟨hok', hext.userOk, hext.toKeeps, fun v => ?_⟩
    rw [if_neg (by simp), lookup_of_extends hext]
  · rw [heq] at h
    obtain ⟨rfl, hvm'⟩ := Prod.mk.inj h
    obtain ⟨hok', huser, hkeeps, hself, hother, -⟩ :=
      hreach.leaf rfl (tableIndex virtAddr 12) hphys hpres hvm'
    refine ⟨hok', huser, hkeeps, fun v => ?_⟩
    by_cases hv : indices v = indices virtAddr
    · rw [if_pos ⟨rfl, hv⟩, Vm.lookup, hv, indices_eq, hself]
    · rw [if_neg fun h => hv h.2, Vm.lookup, hother _ (length_indices v) hv, Vm.lookup]

/-- Three free low frames are enough for a call. -/
theorem mapPage_done {vm : Vm} (hok : vm.TreeOk) (physAddr flags : UInt64) {virtAddr : UInt64}
    (hno : vm.NoLarge (indices virtAddr)) (hcount : 3 ≤ vm.pfa.lowFreeCount.toNat) :
    (mapPage vm physAddr virtAddr flags).1 = true := by
  rcases mapPage_cases hok physAddr flags hno with ⟨vm₁, -, -, -, -, hle⟩ | ⟨vm₁, k, heq, -⟩
  · omega
  · rw [heq]

/-- A call takes at most three low frames. -/
theorem mapPage_count {vm : Vm} (hok : vm.TreeOk) (physAddr flags : UInt64) {virtAddr : UInt64}
    (hno : vm.NoLarge (indices virtAddr)) :
    vm.pfa.lowFreeCount.toNat ≤
      (mapPage vm physAddr virtAddr flags).2.pfa.lowFreeCount.toNat + 3 := by
  rcases mapPage_cases hok physAddr flags hno with ⟨vm₁, heq, -, -, -, hle⟩ | ⟨vm₁, k, heq, hreach⟩
  · omega
  · rw [heq, Vm.setEntry_pfa]
    exact hreach.count

/-! ## Runs of calls -/

/-- The arguments of a call of `map_page`. -/
structure MapCall where
  phys : UInt64
  virt : UInt64
  flags : UInt64
  deriving DecidableEq

/-- The state after a sequence of calls. -/
def mapAll (vm : Vm) (calls : List MapCall) : Vm :=
  calls.foldl (fun vm c => (mapPage vm c.phys c.virt c.flags).2) vm

/-- The calls of a sequence whose allocations succeeded. -/
def completed (vm : Vm) : List MapCall → List MapCall
  | [] => []
  | c :: calls =>
    let r := mapPage vm c.phys c.virt c.flags
    if r.1 then c :: completed r.2 calls else completed r.2 calls

/-- The leaf a call asks for. -/
def MapCall.leaf (c : MapCall) : UInt64 := c.phys ||| c.flags

/-- A map from addresses, updated by a call on the page of its virtual address. -/
def updateMap (m : UInt64 → Option (UInt64 × ℕ)) (c : MapCall) : UInt64 → Option (UInt64 × ℕ) :=
  fun v => if indices v = indices c.virt then some (c.leaf, 0) else m v

/-- A map updated by a sequence of calls reads the last call for the page. -/
theorem foldl_updateMap (calls : List MapCall) (m : UInt64 → Option (UInt64 × ℕ)) (v : UInt64) :
    calls.foldl updateMap m v =
      match calls.reverse.find? (fun c => indices v = indices c.virt) with
      | some c => some (c.leaf, 0)
      | none => m v := by
  induction calls using List.reverseRecOn with
  | nil => rfl
  | append_singleton calls c ih =>
    rw [List.foldl_append, List.reverse_append, List.reverse_singleton, List.singleton_append,
      List.find?_cons, List.foldl_cons, List.foldl_nil, updateMap]
    by_cases hv : indices v = indices c.virt
    · rw [if_pos hv, decide_eq_true hv]
    · rw [if_neg hv, decide_eq_false hv]
      exact ih

/-- What a caller passes: a page-aligned frame and `PAGE_PRESENT`. -/
structure MapCall.Valid (c : MapCall) : Prop where
  phys_aligned : c.phys.toNat % 4096 = 0
  present : bit c.flags 0 = true

/-- A run of calls keeps the tree and updates the lookup by its completed calls. -/
theorem mapAll_spec (calls : List MapCall) {vm : Vm} (hok : vm.TreeOk)
    (hvalid : ∀ c ∈ calls, c.Valid) (hno : ∀ c ∈ calls, vm.NoLarge (indices c.virt)) :
    (mapAll vm calls).TreeOk ∧ (vm.UserOk → (mapAll vm calls).UserOk) ∧
      Keeps vm (mapAll vm calls) ∧
      (mapAll vm calls).lookup = (completed vm calls).foldl updateMap vm.lookup := by
  induction calls generalizing vm with
  | nil => exact ⟨hok, id, Keeps.refl vm, rfl⟩
  | cons c calls ih =>
    have hc := hvalid c List.mem_cons_self
    obtain ⟨done, vm', heq⟩ : ∃ done vm', mapPage vm c.phys c.virt c.flags = (done, vm') :=
      ⟨_, _, rfl⟩
    obtain ⟨hok', huser', hkeeps, hlookup⟩ :=
      mapPage_spec hok hc.phys_aligned hc.present (hno c List.mem_cons_self) heq
    obtain ⟨hok'', huser'', hkeeps', hlookup'⟩ :=
      ih hok' (fun d hd => hvalid d (List.mem_cons_of_mem c hd))
        fun d hd => hkeeps.noLarge _ (length_indices d.virt) (hno d (List.mem_cons_of_mem c hd))
    rw [mapAll, List.foldl_cons, heq, completed, heq]
    refine ⟨hok'', fun huser => huser'' (huser' huser), hkeeps.trans hkeeps', hlookup'.trans ?_⟩
    cases done with
    | false =>
      have hsame : vm'.lookup = vm.lookup := by
        funext v
        rw [hlookup, if_neg (by simp)]
      rw [hsame]
      rfl
    | true =>
      have hupdate : vm'.lookup = updateMap vm.lookup c := by
        funext v
        rw [hlookup, updateMap, MapCall.leaf]
        simp
      rw [hupdate]
      rfl

theorem mem_of_mem_completed {vm : Vm} {calls : List MapCall} {c : MapCall}
    (h : c ∈ completed vm calls) : c ∈ calls := by
  induction calls generalizing vm with
  | nil => cases h
  | cons d calls ih =>
    rw [completed] at h
    by_cases hd : (mapPage vm d.phys d.virt d.flags).1 = true
    · rw [if_pos hd] at h
      rcases List.mem_cons.mp h with rfl | h
      · exact List.mem_cons_self
      · exact List.mem_cons_of_mem d (ih h)
    · rw [if_neg hd] at h
      exact List.mem_cons_of_mem d (ih h)

/-- Three free low frames for each call are enough for a run. -/
theorem completed_eq {calls : List MapCall} {vm : Vm} (hok : vm.TreeOk)
    (hvalid : ∀ c ∈ calls, c.Valid) (hno : ∀ c ∈ calls, vm.NoLarge (indices c.virt))
    (hcount : 3 * calls.length ≤ vm.pfa.lowFreeCount.toNat) : completed vm calls = calls := by
  induction calls generalizing vm with
  | nil => rfl
  | cons c calls ih =>
    have hc := hvalid c List.mem_cons_self
    have hnoc := hno c List.mem_cons_self
    rw [List.length_cons] at hcount
    have hdone := mapPage_done hok c.phys c.flags hnoc (by omega)
    have htaken := mapPage_count hok c.phys c.flags hnoc
    obtain ⟨done, vm', heq⟩ : ∃ done vm', mapPage vm c.phys c.virt c.flags = (done, vm') :=
      ⟨_, _, rfl⟩
    obtain ⟨hok', -, hkeeps, -⟩ := mapPage_spec hok hc.phys_aligned hc.present hnoc heq
    rw [heq] at hdone htaken
    dsimp only at hdone htaken
    rw [completed, heq, if_pos hdone, ih hok' (fun d hd => hvalid d (List.mem_cons_of_mem c hd))
      (fun d hd => hkeeps.noLarge _ (length_indices d.virt) (hno d (List.mem_cons_of_mem c hd)))
      (by omega)]

/-- What the run leaves in a page it completed a call for, if only one call is for it. -/
theorem lookup_mapAll_of_mem {calls : List MapCall} {vm : Vm} (hok : vm.TreeOk)
    (hvalid : ∀ c ∈ calls, c.Valid) (hno : ∀ c ∈ calls, vm.NoLarge (indices c.virt))
    {c : MapCall} (hc : c ∈ completed vm calls) {v : UInt64} (hv : indices v = indices c.virt)
    (hone : ∀ d ∈ completed vm calls, indices d.virt = indices c.virt → d = c) :
    (mapAll vm calls).lookup v = some (c.leaf, 0) := by
  rw [(mapAll_spec calls hok hvalid hno).2.2.2, foldl_updateMap]
  cases hfind : (completed vm calls).reverse.find? fun d => indices v = indices d.virt with
  | none =>
    have hnone := List.find?_eq_none.mp hfind c (List.mem_reverse.mpr hc)
    exact absurd (decide_eq_true hv) hnone
  | some d =>
    have hmem := List.mem_reverse.mp (List.mem_of_find?_eq_some hfind)
    have hd : indices v = indices d.virt := by simpa using List.find?_some hfind
    rw [hone d hmem (hd.symm.trans hv)]

theorem lookup_mapAll_of_not_mem {calls : List MapCall} {vm : Vm} (hok : vm.TreeOk)
    (hvalid : ∀ c ∈ calls, c.Valid) (hno : ∀ c ∈ calls, vm.NoLarge (indices c.virt))
    {v : UInt64} (hv : ∀ d ∈ calls, indices v ≠ indices d.virt) :
    (mapAll vm calls).lookup v = vm.lookup v := by
  rw [(mapAll_spec calls hok hvalid hno).2.2.2, foldl_updateMap]
  have hnone : ((completed vm calls).reverse.find? fun d => indices v = indices d.virt) = none := by
    rw [List.find?_eq_none]
    intro d hd hyes
    exact hv d (mem_of_mem_completed (List.mem_reverse.mp hd)) (of_decide_eq_true hyes)
  rw [hnone]

/-- The mapping a call asks for. -/
def MapCall.mapping (c : MapCall) : Mapping := ⟨c.leaf, 0, bit c.flags 2⟩

theorem MapCall.Valid.bit_leaf {c : MapCall} (h : c.Valid) : bit c.leaf 2 = bit c.flags 2 := by
  rw [MapCall.leaf, bit_or, bit_of_aligned (k := 12) h.phys_aligned (by norm_num), Bool.false_or]

/-- A call for a frame below `2^52`, with flags outside the address field, maps that frame
with those flags. -/
theorem MapCall.mapping_fields {c : MapCall} (hphys : c.phys &&& paddrMask = c.phys)
    (hflags : c.flags &&& paddrMask = 0) :
    c.mapping.frame = c.phys ∧ c.mapping.flags = c.flags := by
  have hmask (i : ℕ) (hi : i < 64) : bit (~~~paddrMask) i = !bit paddrMask i := testBit_not64 _ hi
  have hp (i : ℕ) : (bit c.phys i && bit paddrMask i) = bit c.phys i := by rw [← bit_and, hphys]
  have hf (i : ℕ) : (bit c.flags i && bit paddrMask i) = false := by
    rw [← bit_and, hflags]
    exact Nat.zero_testBit i
  constructor
  · apply eq_of_bit
    intro i _
    have hpi := hp i
    have hfi := hf i
    rw [Mapping.frame, MapCall.mapping, MapCall.leaf, bit_and, bit_or]
    revert hpi hfi
    cases bit c.phys i <;> cases bit c.flags i <;> cases bit paddrMask i <;> simp
  · apply eq_of_bit
    intro i hi
    have hpi := hp i
    have hfi := hf i
    rw [Mapping.flags, MapCall.mapping, MapCall.leaf, bit_and, bit_or, hmask i hi]
    revert hpi hfi
    cases bit c.phys i <;> cases bit c.flags i <;> cases bit paddrMask i <;> simp

/-- Any sequence of `map_page` calls from a well-kept tree: the translation is the initial one
updated by the completed calls, the last one for each page winning; a call that runs out of
frames changes no translation; and the conditions on the tree still hold. -/
theorem mapAll_refines {vm : Vm} (hok : vm.TreeOk) (huser : vm.UserOk) (calls : List MapCall)
    (hvalid : ∀ c ∈ calls, c.Valid) (hno : ∀ c ∈ calls, vm.NoLarge (indices c.virt)) :
    (∀ v, (mapAll vm calls).translate v =
      match (completed vm calls).reverse.find? (fun c => indices v = indices c.virt) with
      | some c => some c.mapping
      | none => vm.translate v) ∧
    (∀ c ∈ calls, c.phys &&& paddrMask = c.phys → c.flags &&& paddrMask = 0 →
      c.mapping.frame = c.phys ∧ c.mapping.flags = c.flags) ∧
    (∀ c : MapCall, c.Valid → vm.NoLarge (indices c.virt) →
      ∀ vm', mapPage (mapAll vm calls) c.phys c.virt c.flags = (false, vm') →
        vm'.translate = (mapAll vm calls).translate ∧ (pfaAllocLow vm'.pfa).1 = 0) ∧
    (mapAll vm calls).TreeOk ∧ (mapAll vm calls).UserOk ∧
    ∀ v, vm.NoLarge (indices v) → (mapAll vm calls).NoLarge (indices v) := by
  obtain ⟨hok', huser', hkeeps, hlookup⟩ := mapAll_spec calls hok hvalid hno
  refine ⟨fun v => ?_, fun c _ => c.mapping_fields, fun c hc hnoc vm' heq => ?_, hok',
    huser' huser, fun v => hkeeps.noLarge _ (length_indices v)⟩
  · rw [translate_eq (huser' huser), hlookup, foldl_updateMap]
    cases hfind : (completed vm calls).reverse.find? fun c => indices v = indices c.virt with
    | none => exact (translate_eq huser v).symm
    | some c =>
      have hmem := List.mem_reverse.mp (List.mem_of_find?_eq_some hfind)
      have hbit := (hvalid c (mem_of_mem_completed hmem)).bit_leaf
      dsimp only
      rw [Option.map_some, MapCall.mapping, hbit]
  · have hnoc' := hkeeps.noLarge _ (length_indices c.virt) hnoc
    obtain ⟨-, huser'', -, hsame⟩ := mapPage_spec hok' hc.phys_aligned hc.present hnoc' heq
    constructor
    · funext v
      rw [translate_eq (huser'' (huser' huser)), translate_eq (huser' huser), hsame,
        if_neg (by simp)]
    · rcases mapPage_cases hok' c.phys c.flags hnoc' with ⟨vm₁, heq', hok₁, -, hzero, -⟩ | ⟨_, _, heq', -⟩
      · rw [heq] at heq'
        rw [(Prod.mk.inj heq').2]
        rcases pfaAllocLow_count hok₁.wf with ⟨-, hcount⟩ | ⟨hz, -⟩
        · omega
        · exact hz
      · rw [heq] at heq'
        cases heq'

/-! ## Physical addresses -/

theorem bit_offsetMask_of_ge (l : ℕ) {i : ℕ} (hi : 30 ≤ i) : bit (offsetMask l) i = false := by
  unfold offsetMask
  split
  · exact bit_of_lt (k := 12) (by decide) (by omega)
  · exact bit_of_lt (k := 21) (by decide) (by omega)
  · exact bit_of_lt (k := 30) (by decide) hi

/-- The walk never leads beyond 52 bits of physical address. -/
theorem physAt_lt {vm : Vm} {v p : UInt64} (h : vm.physAt v = some p) : p.toNat < 2 ^ 52 := by
  obtain ⟨⟨e, l⟩, -, rfl⟩ := Option.map_eq_some_iff.mp h
  apply Nat.lt_pow_two_of_testBit
  intro i hi
  change bit _ i = false
  rw [bit_or, bit_and, bit_and, bit_and, bit_paddrMask, decide_eq_false (by omega : ¬ i < 52),
    bit_offsetMask_of_ge l (by omega)]
  simp

/-- The bytes of a page that was mapped to the frame `f`. -/
theorem physAt_of_lookup {vm : Vm} {v f flags : UInt64} (hf : f.toNat % 4096 = 0)
    (hlt : f.toNat < 2 ^ 52) (hflags : flags &&& paddrMask = 0)
    (h : vm.lookup v = some (f ||| flags, 0)) :
    ∃ p, vm.physAt v = some p ∧ p.toNat = f.toNat + v.toNat % 4096 := by
  have hframe : (f ||| flags) &&& paddrMask &&& ~~~offsetMask 0 = f := by
    apply eq_of_bit
    intro i hi
    have hfl : (bit flags i && bit paddrMask i) = false := by
      rw [← bit_and, hflags]
      exact Nat.zero_testBit i
    have hoff : bit (offsetMask 0) i = decide (i < 12) := Nat.testBit_two_pow_sub_one 12 i
    have hnot : bit (~~~offsetMask 0) i = !bit (offsetMask 0) i := testBit_not64 _ hi
    rw [bit_and, bit_and, bit_or, hnot, hoff, Bool.and_or_distrib_right, hfl, Bool.or_false,
      bit_paddrMask]
    by_cases h12 : i < 12
    · rw [bit_of_aligned (k := 12) hf h12]
      simp
    · by_cases h52 : i < 52
      · rw [decide_eq_true h52, decide_eq_false h12, decide_eq_true (by omega : 12 ≤ i)]
        simp
      · rw [bit_of_lt (k := 52) hlt (by omega)]
        simp
  have hlow : (v &&& offsetMask 0).toNat = v.toNat % 4096 :=
    toNat_and_low v (offsetMask 0) (k := 12) rfl
  refine ⟨f ||| (v &&& offsetMask 0), ?_, ?_⟩
  · rw [Vm.physAt, h, Option.map_some]
    dsimp only
    rw [hframe]
  · have hsplit : f.toNat = 2 ^ 12 * (f.toNat / 4096) := by omega
    rw [UInt64.toNat_or, hlow, hsplit, ← Nat.two_pow_add_eq_or_of_lt (by omega)]

/-! ## An empty tree -/

theorem walk_of_empty {vm : Vm} (hzero : ∀ k j, vm.entry k j = 0) (p : List (Fin 512)) (k : UInt64)
    (h : walk nextTable vm.entry vm.root p = some k) : p = [] ∧ k = vm.root := by
  cases p with
  | nil => exact ⟨rfl, (Option.some.inj h).symm⟩
  | cons i p =>
    rw [walk, hzero, nextTable_zero] at h
    cases h

theorem isTable_of_empty {vm : Vm} (hzero : ∀ k j, vm.entry k j = 0) (k : UInt64) :
    vm.IsTable k ↔ k = vm.root := by
  constructor
  · rintro ⟨p, -, hp⟩
    exact (walk_of_empty hzero p k hp).2
  · rintro rfl
    exact vm.root_isTable

theorem tree_of_empty {vm : Vm} (hzero : ∀ k j, vm.entry k j = 0) :
    Tree nextTable vm.entry vm.root 3 := by
  intro p q k _ _ hp hq
  rw [(walk_of_empty hzero p k hp).1, (walk_of_empty hzero q k hq).1]

/-- A cleared PML4 outside the allocator's reach. -/
theorem treeOk_of_empty {vm : Vm} (hwf : WellFormed vm.pfa) (hroot : ¬ FreeFrame vm.pfa vm.root)
    (hzero : ∀ k j, vm.entry k j = 0) : vm.TreeOk ∧ vm.UserOk ∧ ∀ w, vm.NoLarge w := by
  refine ⟨⟨hwf, tree_of_empty hzero, ?_⟩, ?_, ?_⟩
  · intro k hk
    rw [(isTable_of_empty hzero k).mp hk]
    exact hroot
  · intro w e l hw hfind
    cases w with
    | nil => cases hfind
    | cons i w =>
      rw [find, hzero, isLeaf_of_not_present (by rfl), nextTable_zero] at hfind
      cases hfind
  · intro w p j r k _ _ _ hbit
    rw [hzero] at hbit
    cases hbit

/-- Memory that is all zero, with the PML4 at `cr3`. -/
def bootVm (cr3 : UInt64) (pfa : Pfa) : Vm := ⟨fun _ => 0, cr3, pfa⟩

theorem bootVm_entry (cr3 : UInt64) (pfa : Pfa) (k : UInt64) (j : Fin 512) :
    (bootVm cr3 pfa).entry k j = 0 := Memory.load64_of_zero fun _ _ => rfl

theorem bootVm_root {cr3 : UInt64} (hcr3 : cr3 &&& paddrMask = cr3) (pfa : Pfa) :
    (bootVm cr3 pfa).root = cr3 := hcr3

/-- One megabyte at 1 MiB and the PML4 at 4 KiB. -/
theorem bootVm_ok {m : State} (hm : mmInit 0 (some [⟨0x100000, 0x100000, 0⟩]) = some m) :
    (bootVm 0x1000 m.pfa).TreeOk ∧ (bootVm 0x1000 m.pfa).UserOk ∧
      ∀ w, (bootVm 0x1000 m.pfa).NoLarge w := by
  obtain ⟨hwf, hfree⟩ := mmInit_spec hm
  apply treeOk_of_empty hwf _ (bootVm_entry 0x1000 m.pfa)
  rw [bootVm_root (by decide)]
  intro h
  obtain ⟨⟨-, e, he, -, hge, -⟩, -⟩ := (hfree _).mp h
  rw [List.mem_singleton.mp he] at hge
  exact absurd hge (by decide)

theorem bootVm_lookup (cr3 : UInt64) (pfa : Pfa) (v : UInt64) :
    (bootVm cr3 pfa).lookup v = none := by
  unfold Vm.lookup indices
  rw [find, bootVm_entry, isLeaf_of_not_present (by rfl), nextTable_zero]
  rfl

/-- The frames from 0x120000 on are free. -/
theorem boot_free {m : State} (hm : mmInit 0 (some [⟨0x100000, 0x100000, 0⟩]) = some m)
    {p : UInt64} (hp : p.toNat % 4096 = 0) (hge : 0x120000 ≤ p.toNat) (hlt : p.toNat < 0x200000) :
    FreeLow m.pfa p := by
  have hfree : FreeFrame m.pfa p := by
    refine ((mmInit_spec hm).2 p).mpr ⟨⟨⟨hp, ?_, ?_⟩, ⟨0x100000, 0x100000, 0⟩, by simp, rfl, ?_, ?_⟩, ?_⟩
    · rintro rfl
      exact absurd hge (by decide)
    · rw [managedEnd_eq]
      omega
    · have hstart : (MemmapEntry.regionStart ⟨0x100000, 0x100000, 0⟩).toNat = 0x100000 := by decide
      rw [UInt64.le_iff_toNat_le, hstart]
      omega
    · have hend : (MemmapEntry.regionEnd ⟨0x100000, 0x100000, 0⟩).toNat = 0x200000 := by decide
      rw [UInt64.lt_iff_toNat_lt, hend]
      exact hlt
    · have hplace : bitmapPlacementAddr [⟨0x100000, 0x100000, 0⟩] + reqSize = 0x120000 := by decide
      have htop : (0x120000 : UInt64).toNat = 0x120000 := rfl
      rw [hplace, isReserved, List.any_cons, List.any_nil, Bool.or_false, Bool.and_eq_false_iff]
      left
      rw [decide_eq_false_iff_not, UInt64.lt_iff_toNat_lt, htop]
      omega
  exact freeLow_of_freeFrame hfree (by omega)

theorem boot_count {m : State} (hm : mmInit 0 (some [⟨0x100000, 0x100000, 0⟩]) = some m) :
    224 ≤ m.pfa.lowFreeCount.toNat := by
  have hcard : (Finset.Ico 288 512).card = 224 := by rw [Nat.card_Ico]
  rw [(mmInit_spec hm).1.low_count, ← hcard]
  apply Finset.card_le_card
  intro i hi
  obtain ⟨hge, hlt⟩ := Finset.mem_Ico.mp hi
  have hi' : i < maxPages := by
    rw [maxPages_eq]
    omega
  have haddr := toNat_mul_pageSize hi'
  obtain ⟨-, -, hclear⟩ := boot_free hm (p := UInt64.ofNat i * pageSize) (by rw [haddr]; omega)
    (by rw [haddr]; omega) (by rw [haddr]; omega)
  rw [haddr, Nat.mul_div_cancel i (by norm_num)] at hclear
  exact ByteBits.mem_clearBits.mpr ⟨hi', hclear⟩

/-- Two calls for one page. -/
theorem mapAll_refines_twice :
    ∃ m, mmInit 0 (some [⟨0x100000, 0x100000, 0⟩]) = some m ∧
      (mapAll (bootVm 0x1000 m.pfa) [⟨0x5000, 0x400000, 7⟩, ⟨0x6000, 0x400000, 3⟩]).TreeOk := by
  obtain ⟨m, hm⟩ := mmInit_isSome 0
    (show bitmapPlacementAddr [⟨0x100000, 0x100000, 0⟩] ≠ 0 by decide)
  obtain ⟨hok, huser, hno⟩ := bootVm_ok hm
  have h := mapAll_refines hok huser [⟨0x5000, 0x400000, 7⟩, ⟨0x6000, 0x400000, 3⟩]
    (by
      intro c hc
      rcases List.mem_pair.mp hc with rfl | rfl
      · exact ⟨rfl, rfl⟩
      · exact ⟨rfl, rfl⟩)
    (fun c _ => hno _)
  exact ⟨m, hm, h.2.2.2.1⟩

end Rhoudveine.Mm
