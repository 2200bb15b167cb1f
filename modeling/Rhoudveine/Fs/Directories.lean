import Rhoudveine.Fs.Resolve
import Rhoudveine.Lib.Walk

/-!
# One ramfs at the root

While nothing is mounted below the root, a path resolves to where the lookups of its components
lead, and a new child is one more path.
-/

namespace Rhoudveine.Fs
open Search Walk

/-- A name that the child tables store whole. -/
structure Component (x : Str) : Prop where
  nonempty : x ≠ []
  no_slash : slash ∉ x
  length_le : x.length ≤ 31

/-- The absolute path of these components. -/
def absolute (comps : List Str) : Str :=
  if comps = [] then [slash] else comps.flatMap (slash :: ·)

/-! ## Paths -/

theorem lastSlash_of_not_mem {p : Str} (h : slash ∉ p) : lastSlash p = none := by
  induction p with
  | nil => rfl
  | cons c p ih =>
    obtain ⟨hc, hp⟩ := not_or.mp (List.mem_cons.not.mp h)
    rw [lastSlash, ih hp]
    exact if_neg (Ne.symm hc)

theorem lastSlash_append {p x : Str} (h : slash ∉ x) :
    lastSlash (p ++ slash :: x) = some p.length := by
  induction p with
  | nil =>
    rw [List.nil_append, lastSlash, lastSlash_of_not_mem h]
    exact if_pos rfl
  | cons c p ih => rw [List.cons_append, lastSlash, ih, List.length_cons]

theorem absolute_concat (init : List Str) (x : Str) :
    absolute (init ++ [x]) = init.flatMap (slash :: ·) ++ slash :: x := by
  rw [absolute, if_neg (by simp), List.flatMap_append, List.flatMap_singleton]

theorem lastSlash_absolute (init : List Str) {x : Str} (hx : slash ∉ x) :
    lastSlash (absolute (init ++ [x])) = some (init.flatMap (slash :: ·)).length := by
  rw [absolute_concat, lastSlash_append hx]

theorem vfsBasename_absolute (init : List Str) {x : Str} (hx : slash ∉ x) :
    vfsBasename (absolute (init ++ [x])) = x := by
  rw [vfsBasename, lastSlash_absolute init hx, absolute_concat]
  change List.drop ((init.flatMap (slash :: ·)).length + 1) _ = x
  rw [← List.drop_drop, List.drop_left]
  rfl

theorem flatMap_slash_eq_nil {comps : List Str} : comps.flatMap (slash :: ·) = [] ↔ comps = [] := by
  cases comps with
  | nil => simp
  | cons x xs => simp

theorem vfsDirname_absolute {init : List Str} {x : Str} (hx : slash ∉ x)
    (hlen : (absolute (init ++ [x])).length ≤ 255) :
    vfsDirname (absolute (init ++ [x])) = absolute init := by
  rw [vfsDirname, lastSlash_absolute init hx, absolute_concat, absolute]
  rw [absolute_concat, List.length_append, List.length_cons] at hlen
  by_cases hinit : init = []
  · subst hinit
    rfl
  · have hne : (init.flatMap (slash :: ·)).length ≠ 0 := by
      rw [Ne, List.length_eq_zero_iff, flatMap_slash_eq_nil]
      exact hinit
    have hlt : ¬ (init.flatMap (slash :: ·)).length ≥ 256 := by omega
    simp only [if_neg hne, if_neg hlt, if_neg hinit, List.take_left]

theorem takeComponent_append {n : ℕ} {x p : Str} (hx : slash ∉ x) (hlen : x.length ≤ n)
    (hp : p = [] ∨ p.head? = some slash) : takeComponent n (x ++ p) = (x, p) := by
  induction x generalizing n with
  | nil =>
    rcases hp with rfl | hp
    · cases n <;> rfl
    · obtain ⟨c, p, rfl⟩ := List.exists_cons_of_ne_nil (show p ≠ [] by rintro rfl; cases hp)
      obtain rfl : c = slash := Option.some.inj hp
      cases n with
      | zero => rfl
      | succ n => exact if_pos rfl
  | cons c x ih =>
    obtain ⟨hc, hx⟩ := not_or.mp (List.mem_cons.not.mp hx)
    cases n with
    | zero => cases hlen
    | succ n =>
      rw [List.cons_append, takeComponent, if_neg (Ne.symm hc), ih hx (Nat.le_of_succ_le_succ hlen)]

/-- One lookup of a path without empty components. -/
theorem resolveLoop_cons {s : Vfs} {rounds cur : ℕ} {x : Str} (hx : Component x) (xs : List Str) :
    resolveLoop s (rounds + 1) (some cur) (x ++ xs.flatMap (slash :: ·)) =
      match (s.ramfsNodePool cur).ops with
      | none => .null
      | some .ramfs =>
        match ramfsFinddir s cur x with
        | none => .null
        | some next => resolveLoop s rounds (followMount s next) (xs.flatMap (slash :: ·)).tail := by
  have hrest : xs.flatMap (slash :: ·) = [] ∨ (xs.flatMap (slash :: ·)).head? = some slash := by
    cases xs with
    | nil => exact Or.inl rfl
    | cons y ys => exact Or.inr rfl
  have hlen := hx.length_le
  have htake := takeComponent_append hx.no_slash (hlen.trans (show 31 ≤ 255 by norm_num)) hrest
  have hskip : skipSlash (xs.flatMap (slash :: ·)) = (xs.flatMap (slash :: ·)).tail := by
    cases xs with
    | nil => rfl
    | cons y ys =>
      rw [List.flatMap_cons, List.cons_append, skipSlash, if_pos rfl, List.tail_cons]
  obtain ⟨c, p, hcons⟩ := List.exists_cons_of_ne_nil
    (show x ++ xs.flatMap (slash :: ·) ≠ [] by simp [hx.nonempty])
  rw [hcons] at htake ⊢
  have hstep := resolveLoop_component s rounds cur (p := p) (c := c)
    (by rw [htake]; exact hx.nonempty)
  rw [htake, hskip] at hstep
  exact hstep

/-! ## The tree -/

structure OneTree (s : Vfs) : Prop extends Shaped s where
  root_eq : s.gVfsRoot = some 0
  root_dir : (s.ramfsNodePool 0).isDir
  dir_lt : ∀ n, (s.ramfsNodePool n).isDir → n < s.ramfsNodeCount
  dir_data : ∀ n, (s.ramfsNodePool n).isDir → (s.ramfsNodePool n).fsData = .dir n
  ops : ∀ n < s.ramfsNodeCount, (s.ramfsNodePool n).ops = some .ramfs
  unlinked : ∀ n ≠ 0, (s.ramfsNodePool n).mount = none
  packed : ∀ d i j, i ≤ j → (s.ramfsDataPool d).children i = none →
    (s.ramfsDataPool d).children j = none
  child_ne : ∀ d i, d < s.ramfsNodeCount → (s.ramfsDataPool d).children i ≠ some 0
  child_inj : ∀ d i d' i' c, d < s.ramfsNodeCount → d' < s.ramfsNodeCount →
    (s.ramfsDataPool d).children i = some c → (s.ramfsDataPool d').children i' = some c →
    d = d' ∧ i = i'

namespace OneTree

variable {s : Vfs}

theorem root_lt' (h : OneTree s) : 0 < s.ramfsNodeCount := h.dir_lt 0 h.root_dir

theorem finddir_dir (h : OneTree s) {n : ℕ} (hdir : (s.ramfsNodePool n).isDir) (y : Str) :
    ramfsFinddir s n y = firstSome (fun i => ((s.ramfsDataPool n).children i).bind fun c =>
      if y = (s.ramfsDataPool n).childNames i then some c else none) ramfsMaxChildren 0 := by
  unfold ramfsFinddir
  dsimp only
  rw [if_neg (not_not.mpr hdir), h.dir_data n hdir]

theorem finddir_slot (h : OneTree s) {n c : ℕ} {y : Str} (hf : ramfsFinddir s n y = some c) :
    (s.ramfsNodePool n).isDir ∧ ∃ i < ramfsMaxChildren,
      (s.ramfsDataPool n).children i = some c ∧ (s.ramfsDataPool n).childNames i = y := by
  by_cases hdir : (s.ramfsNodePool n).isDir
  · rw [h.finddir_dir hdir] at hf
    obtain ⟨i, -, hi, hfi, -⟩ := firstSome_eq_some.mp hf
    obtain ⟨c', hc', heq⟩ := Option.bind_eq_some_iff.mp hfi
    split at heq
    · rename_i hname
      obtain rfl := Option.some.inj heq
      exact ⟨hdir, i, by omega, hc', hname.symm⟩
    · cases heq
  · rw [ramfsFinddir, if_pos hdir] at hf
    cases hf

theorem tree (h : OneTree s) : Tree (ramfsFinddir s) 0 where
  not_root n x hf := by
    obtain ⟨hdir, i, -, hc, -⟩ := h.finddir_slot hf
    exact h.child_ne n i (h.dir_lt n hdir) hc
  unique n x n' x' m hf hf' := by
    obtain ⟨hdir, i, -, hc, hx⟩ := h.finddir_slot hf
    obtain ⟨hdir', i', -, hc', hx'⟩ := h.finddir_slot hf'
    obtain ⟨rfl, rfl⟩ := h.child_inj n i n' i' m (h.dir_lt n hdir) (h.dir_lt n' hdir') hc hc'
    exact ⟨rfl, hx.symm.trans hx'⟩

theorem finddir_closed (h : OneTree s) (n : ℕ) (x : Str) (m : ℕ) (_ : n < s.ramfsNodeCount)
    (hf : ramfsFinddir s n x = some m) : m < s.ramfsNodeCount := by
  obtain ⟨hdir, i, -, hc, -⟩ := h.finddir_slot hf
  exact h.child_lt n i m (h.dir_lt n hdir) hc

theorem walk_lt (h : OneTree s) {comps : List Str} {n : ℕ}
    (hw : walk (ramfsFinddir s) 0 comps = some n) : n < s.ramfsNodeCount :=
  walk_mem h.finddir_closed h.root_lt' hw

/-! ## Resolution -/

theorem followMount_child (h : OneTree s) {n m : ℕ} {x : Str} (hf : ramfsFinddir s n x = some m) :
    followMount s m = some m := by
  have hne : m ≠ 0 := fun hzero => h.tree.not_root n x (hzero ▸ hf)
  rcases followMount_cases s m with ⟨heq, -⟩ | ⟨k, hk, -⟩
  · exact heq
  · rw [h.unlinked m hne] at hk
    cases hk

theorem resolveLoop_walk (h : OneTree s) {comps : List Str} (hcomps : ∀ x ∈ comps, Component x)
    {rounds cur : ℕ} (hcur : cur < s.ramfsNodeCount) (hrounds : comps.length ≤ rounds) :
    Fs.resolveLoop s rounds (some cur) (comps.flatMap (slash :: ·)).tail =
      .ofPointer (walk (ramfsFinddir s) cur comps) := by
  induction comps generalizing rounds cur with
  | nil => cases rounds <;> rfl
  | cons x xs ih =>
    obtain ⟨hx, hxs⟩ := List.forall_mem_cons.mp hcomps
    cases rounds with
    | zero => cases hrounds
    | succ rounds =>
      change Fs.resolveLoop s (rounds + 1) (some cur) (x ++ xs.flatMap (slash :: ·)) = _
      rw [resolveLoop_cons hx, h.ops cur hcur, walk]
      dsimp only
      cases hf : ramfsFinddir s cur x with
      | none => rfl
      | some next =>
        dsimp only
        rw [h.followMount_child hf, Option.bind_some]
        exact ih hxs (h.finddir_closed cur x next hcur hf) (Nat.le_of_succ_le_succ hrounds)

/-- An absolute path resolves to the end of the walk along its components. -/
theorem resolve_absolute (h : OneTree s) {comps : List Str} (hcomps : ∀ x ∈ comps, Component x) :
    vfsResolvePath s (absolute comps) = .ofPointer (walk (ramfsFinddir s) 0 comps) := by
  cases comps with
  | nil => exact vfsResolvePath_slash h.root_eq
  | cons x xs =>
    obtain ⟨hx, -⟩ := List.forall_mem_cons.mp hcomps
    obtain ⟨c, p, hcons⟩ := List.exists_cons_of_ne_nil
      (show x ++ xs.flatMap (slash :: ·) ≠ [] by simp [hx.nonempty])
    have habs : absolute (x :: xs) = slash :: (x ++ xs.flatMap (slash :: ·)) := by
      rw [absolute, if_neg (List.cons_ne_nil x xs)]
      rfl
    have hrounds : (x :: xs).length ≤ (x ++ xs.flatMap (slash :: ·)).length := by
      have hpos := List.length_pos_of_ne_nil hx.nonempty
      have hle : xs.length ≤ (xs.flatMap (slash :: ·)).length := by
        clear hcomps habs hcons
        induction xs with
        | nil => exact le_rfl
        | cons y ys ih =>
          rw [List.flatMap_cons, List.length_append, List.length_cons, List.length_cons]
          omega
      rw [List.length_cons, List.length_append]
      omega
    rw [← h.resolveLoop_walk hcomps h.root_lt' hrounds, habs]
    change _ = Fs.resolveLoop s _ (some 0) (x ++ xs.flatMap (slash :: ·))
    rw [hcons]
    unfold vfsResolvePath
    rw [h.root_eq]
    dsimp only
    rw [if_neg (not_not.mpr rfl), if_neg (List.cons_ne_nil c p)]

end OneTree

/-! ## A new child -/

theorem ramfsCreate_full {s : Vfs} (h : maxRamfsNodes ≤ s.ramfsNodeCount) (parent : ℕ) (name : Str)
    (flags : UInt32) : ramfsCreate s parent name flags = (-1, s) := by
  rcases ramfsCreate_cases s parent name flags with heq | ⟨s', -, hc⟩
  · exact heq
  · obtain ⟨-, -, -, -, -, hroom⟩ := hc
    exact absurd hroom (Nat.not_lt.mpr h)

section enterChild

variable {s : Vfs} {p slot : ℕ} {name : Str} {flags : UInt32}

theorem enterChild_new :
    (enterChild s p slot name flags).ramfsNodePool s.ramfsNodeCount = newNode s name flags :=
  addNode_new s _

theorem enterChild_old {n : ℕ} (hn : n ≠ s.ramfsNodeCount) :
    (enterChild s p slot name flags).ramfsNodePool n = s.ramfsNodePool n :=
  addNode_old s _ hn

theorem enterChild_newDir (hp : p < s.ramfsNodeCount) :
    (enterChild s p slot name flags).ramfsDataPool s.ramfsNodeCount =
      ⟨fun _ => [], fun _ => none⟩ := by
  rw [enterChild, setDir_data, Function.update_of_ne (Nat.ne_of_gt hp), addNode_newDir]

theorem enterChild_oldDir {n : ℕ} (hn : n ≠ s.ramfsNodeCount) (hnp : n ≠ p) :
    (enterChild s p slot name flags).ramfsDataPool n = s.ramfsDataPool n := by
  rw [enterChild, setDir_data, Function.update_of_ne hnp, addNode_oldDir _ _ hn]

theorem enterChild_parent (hp : p < s.ramfsNodeCount) :
    (enterChild s p slot name flags).ramfsDataPool p =
      { children := Function.update (s.ramfsDataPool p).children slot (some s.ramfsNodeCount)
        childNames := Function.update (s.ramfsDataPool p).childNames slot (name.take 31) } := by
  rw [enterChild, setDir_data, Function.update_self, addNode_oldDir _ _ (Nat.ne_of_lt hp)]

/-- The first free slot is filled. -/
theorem enterChild_packed (hp : p < s.ramfsNodeCount)
    (hfirst : ∀ j < slot, (s.ramfsDataPool p).children j ≠ none)
    (hpacked : ∀ i j, i ≤ j → (s.ramfsDataPool p).children i = none →
      (s.ramfsDataPool p).children j = none) {i j : ℕ} (hij : i ≤ j)
    (hnone : ((enterChild s p slot name flags).ramfsDataPool p).children i = none) :
    ((enterChild s p slot name flags).ramfsDataPool p).children j = none := by
  rw [enterChild_parent hp] at hnone ⊢
  dsimp only at hnone ⊢
  have hi : i ≠ slot := by
    rintro rfl
    rw [Function.update_self] at hnone
    cases hnone
  rw [Function.update_of_ne hi] at hnone
  have hlt : slot < i := by
    by_contra hge
    exact hfirst i (Nat.lt_of_le_of_ne (Nat.le_of_not_lt hge) hi) hnone
  rw [Function.update_of_ne (Nat.ne_of_gt (hlt.trans_le hij))]
  exact hpacked i j hij hnone

theorem enterChild_child (hp : p < s.ramfsNodeCount) {d i c : ℕ}
    (hc : ((enterChild s p slot name flags).ramfsDataPool d).children i = some c) :
    (d = p ∧ i = slot ∧ c = s.ramfsNodeCount) ∨
      (d ≠ s.ramfsNodeCount ∧ (s.ramfsDataPool d).children i = some c) := by
  by_cases hnew : d = s.ramfsNodeCount
  · subst hnew
    rw [enterChild_newDir hp] at hc
    cases hc
  · by_cases hdp : d = p
    · subst hdp
      rw [enterChild_parent hp] at hc
      by_cases hi : i = slot
      · subst hi
        exact Or.inl ⟨rfl, rfl, (Option.some.inj ((Function.update_self i _ _).symm.trans hc)).symm⟩
      · exact Or.inr ⟨hnew, (Function.update_of_ne hi _ _).symm.trans hc⟩
    · rw [enterChild_oldDir hnew hdp] at hc
      exact Or.inr ⟨hnew, hc⟩

end enterChild

namespace OneTree

variable {s : Vfs}

/-- With a node left there is a slot left: the children of a directory are different nodes, and
none is the root. -/
theorem exists_free_slot (h : OneTree s) (hroom : s.ramfsNodeCount < maxRamfsNodes) {p : ℕ}
    (hp : p < s.ramfsNodeCount) :
    ∃ slot < ramfsMaxChildren, (s.ramfsDataPool p).children slot = none ∧
      ∀ j < slot, (s.ramfsDataPool p).children j ≠ none := by
  rcases exists_first_or_forall_not (fun i => (s.ramfsDataPool p).children i = none)
    ramfsMaxChildren with hfirst | hfull
  · exact hfirst
  · exfalso
    have hmaps : ∀ i ∈ Finset.range ramfsMaxChildren,
        ((s.ramfsDataPool p).children i).getD 0 ∈ Finset.range s.ramfsNodeCount := by
      intro i hi
      obtain ⟨c, hc⟩ := Option.ne_none_iff_exists'.mp (hfull i (Finset.mem_range.mp hi))
      rw [hc, Finset.mem_range]
      exact h.child_lt p i c hp hc
    have hcard : (Finset.range s.ramfsNodeCount).card < (Finset.range ramfsMaxChildren).card := by
      rw [Finset.card_range, Finset.card_range]
      exact hroom
    obtain ⟨i, hi, j, hj, hne, heq⟩ := Finset.exists_ne_map_eq_of_card_lt_of_maps_to hcard hmaps
    obtain ⟨c, hc⟩ := Option.ne_none_iff_exists'.mp (hfull i (Finset.mem_range.mp hi))
    obtain ⟨c', hc'⟩ := Option.ne_none_iff_exists'.mp (hfull j (Finset.mem_range.mp hj))
    rw [hc, hc', Option.getD_some, Option.getD_some] at heq
    subst heq
    exact hne (h.child_inj p i p j c hp hp hc hc').2

/-- What a successful `ramfs_create` leaves. -/
structure Grown (s : Vfs) (p : ℕ) (name : Str) (flags : UInt32) (s' : Vfs) : Prop where
  tree : OneTree s'
  count : s'.ramfsNodeCount = s.ramfsNodeCount + 1
  new : s'.ramfsNodePool s.ramfsNodeCount = newNode s name flags
  old : ∀ n ≠ s.ramfsNodeCount, s'.ramfsNodePool n = s.ramfsNodePool n
  leaf : ∀ y, ramfsFinddir s' s.ramfsNodeCount y = none
  edge : ramfsFinddir s p name = none → ramfsFinddir s' p name = some s.ramfsNodeCount
  kept : ∀ n y, n ≠ s.ramfsNodeCount → ¬ (n = p ∧ y = name ∧ ramfsFinddir s p name = none) →
    ramfsFinddir s' n y = ramfsFinddir s n y
  files : s'.fileDataPool = s.fileDataPool ∧ s'.fileDataCount = s.fileDataCount ∧
    s'.frames = s.frames ∧ s'.allocs = s.allocs ∧ s'.gFds = s.gFds

section create

variable (h : OneTree s) {p slot : ℕ} {name : Str} (flags : UInt32)
include h

theorem enterChild (hdir : (s.ramfsNodePool p).isDir) (hslot : slot < ramfsMaxChildren)
    (hroom : s.ramfsNodeCount < maxRamfsNodes) (hfree : (s.ramfsDataPool p).children slot = none)
    (hfirst : ∀ j < slot, (s.ramfsDataPool p).children j ≠ none) :
    OneTree (enterChild s p slot name flags) := by
  have hp := h.dir_lt p hdir
  have hpos : s.ramfsNodeCount ≠ 0 := Nat.ne_of_gt h.root_lt'
  have hold (d : ℕ) (hd : d < s.ramfsNodeCount + 1) (hne : d ≠ s.ramfsNodeCount) :
      d < s.ramfsNodeCount := Nat.lt_of_le_of_ne (Nat.le_of_lt_succ hd) hne
  exact {
    h.toShaped.created (.mk hdir (h.dir_data p hdir) hfree hfirst hslot hroom) with
    root_eq := h.root_eq
    root_dir := by
      rw [enterChild_old hpos.symm]
      exact h.root_dir
    dir_lt := fun n hn => by
      by_cases hnew : n = s.ramfsNodeCount
      · exact hnew ▸ Nat.lt_succ_self _
      · rw [enterChild_old hnew] at hn
        exact (h.dir_lt n hn).trans (Nat.lt_succ_self _)
    dir_data := fun n hn => by
      by_cases hnew : n = s.ramfsNodeCount
      · subst hnew
        rw [enterChild_new] at hn ⊢
        exact if_pos hn
      · rw [enterChild_old hnew] at hn ⊢
        exact h.dir_data n hn
    ops := fun n hn => by
      by_cases hnew : n = s.ramfsNodeCount
      · rw [hnew, enterChild_new]
        rfl
      · rw [enterChild_old hnew]
        exact h.ops n (hold n hn hnew)
    unlinked := fun n hn => by
      by_cases hnew : n = s.ramfsNodeCount
      · rw [hnew, enterChild_new]
        rfl
      · rw [enterChild_old hnew]
        exact h.unlinked n hn
    packed := fun d i j hij hnone => by
      by_cases hnew : d = s.ramfsNodeCount
      · rw [hnew, enterChild_newDir hp]
      · by_cases hdp : d = p
        · subst hdp
          exact enterChild_packed hp hfirst (h.packed d) hij hnone
        · rw [enterChild_oldDir hnew hdp] at hnone ⊢
          exact h.packed d i j hij hnone
    child_ne := fun d i hd hc => by
      rcases enterChild_child hp hc with ⟨-, -, hzero⟩ | ⟨hnew, hc⟩
      · exact hpos hzero.symm
      · exact h.child_ne d i (hold d hd hnew) hc
    child_inj := fun d i d' i' c hd hd' hc hc' => by
      rcases enterChild_child hp hc with ⟨rfl, rfl, rfl⟩ | ⟨hnew, hc⟩
      · rcases enterChild_child hp hc' with ⟨rfl, rfl, -⟩ | ⟨hnew', hc'⟩
        · exact ⟨rfl, rfl⟩
        · exact absurd (h.child_lt d' i' _ (hold d' hd' hnew') hc') (lt_irrefl _)
      · rcases enterChild_child hp hc' with ⟨-, -, rfl⟩ | ⟨hnew', hc'⟩
        · -- the new node is nobody's child yet
          exact absurd (h.child_lt d i _ (hold d hd hnew) hc) (lt_irrefl _)
        · exact h.child_inj d i d' i' c (hold d hd hnew) (hold d' hd' hnew') hc hc' }

/-- A lookup in the parent finds the new child if it finds no older one. -/
theorem finddir_enterChild (h' : OneTree (Fs.enterChild s p slot name flags))
    (hdir : (s.ramfsNodePool p).isDir) (hslot : slot < ramfsMaxChildren)
    (hfree : (s.ramfsDataPool p).children slot = none) (hname : name.length ≤ 31) (y : Str) :
    ramfsFinddir (Fs.enterChild s p slot name flags) p y =
      (ramfsFinddir s p y).or (if y = name then some s.ramfsNodeCount else none) := by
  have hp := h.dir_lt p hdir
  have hdir' : ((Fs.enterChild s p slot name flags).ramfsNodePool p).isDir := by
    rw [enterChild_old (Nat.ne_of_lt hp)]
    exact hdir
  rw [h'.finddir_dir hdir', h.finddir_dir hdir, enterChild_parent hp, List.take_of_length_le hname]
  have hupdate := firstSome_update (f := fun i => ((s.ramfsDataPool p).children i).bind fun c =>
      if y = (s.ramfsDataPool p).childNames i then some c else none)
    (g := fun i => (Function.update (s.ramfsDataPool p).children slot (some s.ramfsNodeCount) i).bind
      fun c => if y = Function.update (s.ramfsDataPool p).childNames slot name i then some c
        else none) hslot
    (fun i hi => by simp only [Function.update_of_ne hi])
    (fun i hi => by simp only [h.packed p slot i hi hfree, Option.bind_none])
  simp only [Function.update_self, Option.bind_some] at hupdate
  exact hupdate

theorem create (hroom : s.ramfsNodeCount < maxRamfsNodes) (hdir : (s.ramfsNodePool p).isDir)
    (hname : name.length ≤ 31) :
    ∃ s', ramfsCreate s p name flags = (0, s') ∧ Grown s p name flags s' := by
  have hp := h.dir_lt p hdir
  obtain ⟨slot, hslot, hfree, hfirst⟩ := h.exists_free_slot hroom hp
  have h' : OneTree (Fs.enterChild s p slot name flags) :=
    h.enterChild flags hdir hslot hroom hfree hfirst
  have hfind := h.finddir_enterChild flags h' hdir hslot hfree hname
  refine ⟨Fs.enterChild s p slot name flags, ?_, h', rfl, enterChild_new,
    fun n hn => enterChild_old hn, ?_, ?_, ?_, rfl, rfl, rfl, rfl, rfl⟩
  · have hsearch : firstSome (fun i => if (s.ramfsDataPool p).children i = none then some i
        else none) ramfsMaxChildren 0 = some slot := by
      apply firstSome_eq_some.mpr
      refine ⟨slot, Nat.zero_le _, by omega, if_pos hfree, fun j _ hj => ?_⟩
      exact if_neg (hfirst j hj)
    simp only [ramfsCreate, not_not.mpr hdir, if_false, h.dir_data p hdir, hsearch, ramfsAllocNode,
      if_neg (Nat.not_le.mpr hroom), setNode_addNode, addNode_new]
    rfl
  · -- the new node has no children yet
    intro y
    by_cases hnew : ((Fs.enterChild s p slot name flags).ramfsNodePool s.ramfsNodeCount).isDir
    · rw [h'.finddir_dir hnew, enterChild_newDir hp]
      exact firstSome_eq_none.mpr fun _ _ _ => rfl
    · rw [ramfsFinddir, if_pos hnew]
  · intro hnone
    rw [hfind, hnone, if_pos rfl, Option.none_or]
  · intro n y hn hold
    by_cases hnp : n = p
    · subst hnp
      rw [hfind]
      cases hf : ramfsFinddir s n y with
      | some c => rw [Option.some_or]
      | none =>
        have hy : y ≠ name := by
          rintro rfl
          exact hold ⟨rfl, rfl, hf⟩
        rw [if_neg hy, Option.or_none]
    · unfold ramfsFinddir
      rw [enterChild_old hn]
      by_cases hdir' : (s.ramfsNodePool n).isDir
      · simp only [h.dir_data n hdir', enterChild_oldDir hn hnp]
      · simp only [if_pos hdir']

end create

/-! ## Paths after a new child -/

section paths

variable {s' : Vfs} {p : ℕ} {name : Str} {flags : UInt32} {init : List Str}

/-- A second child of one name is never found. -/
theorem Grown.walk_dup (h : OneTree s) (hgrown : Grown s p name flags s')
    (hdup : ramfsFinddir s p name ≠ none) (comps : List Str) :
    walk (ramfsFinddir s') 0 comps = walk (ramfsFinddir s) 0 comps := by
  apply walk_congr h.finddir_closed _ h.root_lt'
  intro n y hn
  exact hgrown.kept n y (Nat.ne_of_lt hn) fun hnew => hdup hnew.2.2

theorem Grown.walk_new (h : OneTree s) (hgrown : Grown s p name flags s')
    (hinit : walk (ramfsFinddir s) 0 init = some p) (hfree : ramfsFinddir s p name = none)
    (comps : List Str) :
    walk (ramfsFinddir s') 0 comps =
      if comps = init ++ [name] then some s.ramfsNodeCount
      else walk (ramfsFinddir s) 0 comps := by
  apply h.tree.walk_insert hinit hfree _ hgrown.leaf (hgrown.edge hfree)
  · intro n y hn hne
    exact hgrown.kept n y hn fun hnew => hne ⟨hnew.1, hnew.2.1⟩
  · intro xs hxs
    exact lt_irrefl _ (h.walk_lt hxs)

/-- `vfs_create` and `vfs_mkdir` work on the node of the directory. -/
theorem createAt_absolute (h : OneTree s) (op : Vfs → ℕ → Str → ℤ × Vfs)
    (hcomps : ∀ x ∈ init, Component x) (hname : Component name)
    (hlen : (absolute (init ++ [name])).length ≤ 255)
    (hinit : walk (ramfsFinddir s) 0 init = some p) :
    createAt op s (absolute (init ++ [name])) = some (op s p name) := by
  rw [createAt, vfsDirname_absolute hname.no_slash hlen, vfsBasename_absolute init hname.no_slash,
    h.resolve_absolute hcomps, hinit]
  simp only [Resolved.ofPointer, h.ops p (h.walk_lt hinit)]

/-- Nothing is created without a node. -/
theorem createAt_full (h : OneTree s) (hfull : maxRamfsNodes ≤ s.ramfsNodeCount)
    {op : Vfs → ℕ → Str → ℤ × Vfs}
    (hop : ∀ s parent name, op s parent name = ramfsCreate s parent name flags) (path : Str) :
    createAt op s path = some (-1, s) := by
  unfold createAt
  rcases h.resolvePath (vfsDirname path) with heq | ⟨n, hn, heq⟩
  · rw [heq]
  · rw [heq]
    simp only [h.ops n hn, hop, ramfsCreate_full hfull]

end paths

end OneTree

/-! ## The fresh root -/

/-- The state after `vfs_init`, `ramfs_register` and the mount of a ramfs at `/`. -/
def ramfsRoot (frames : UInt64 → ℕ → UInt8) : Vfs :=
  ((vfsMount (vfsInit frames) (str "/") (str "ramfs")).map Prod.snd).getD (vfsInit frames)

theorem ramfsRoot_mount (frames : UInt64 → ℕ → UInt8) :
    vfsMount (vfsInit frames) (str "/") (str "ramfs") = some (0, ramfsRoot frames) := rfl

/-- The root directory with the mark of its mount, and nothing else. -/
theorem ramfsRoot_eq (frames : UInt64 → ℕ → UInt8) :
    ramfsRoot frames =
      { linkMount { allocRoot (vfsInit frames) [slash] with gVfsRoot := some 0 } 0 0 with
        gMountCount := 1 } := by
  have hmounted := vfsMount_cases (ramfsRoot_mount frames)
  generalize ramfsRoot frames = s at hmounted ⊢
  cases hmounted with
  | root => rfl
  | dir _ _ hpath => exact absurd rfl hpath

theorem ramfsRoot_node (frames : UInt64 → ℕ → UInt8) {n : ℕ} (hn : n ≠ 0) :
    (ramfsRoot frames).ramfsNodePool n = Node.zero := by
  rw [ramfsRoot_eq]
  exact (linkMount_of_ne _ 0 hn).trans (addNode_old _ _ hn)

theorem ramfsRoot_data (frames : UInt64 → ℕ → UInt8) (d : ℕ) :
    (ramfsRoot frames).ramfsDataPool d = ⟨fun _ => [], fun _ => none⟩ := by
  rw [ramfsRoot_eq]
  by_cases hd : d = 0
  · subst hd
    exact addNode_newDir (vfsInit frames) (newNode (vfsInit frames) [slash] vfsDirectory)
  · exact addNode_oldDir (vfsInit frames) (newNode (vfsInit frames) [slash] vfsDirectory) hd

theorem oneTree_ramfsRoot (frames : UInt64 → ℕ → UInt8) : OneTree (ramfsRoot frames) := by
  have hdir (n : ℕ) (hn : ((ramfsRoot frames).ramfsNodePool n).isDir) : n = 0 := by
    by_contra hne
    rw [ramfsRoot_node frames hne] at hn
    exact absurd hn (by decide)
  have hchild (d i : ℕ) : ((ramfsRoot frames).ramfsDataPool d).children i = none := by
    rw [ramfsRoot_data]
  exact {
    (shaped_init frames).mounted (vfsMount_cases (ramfsRoot_mount frames)) with
    root_eq := rfl
    root_dir := by
      have hflags : ((ramfsRoot frames).ramfsNodePool 0).flags = vfsDirectory ||| vfsMountpoint := rfl
      rw [Node.isDir, hflags]
      decide
    dir_lt := fun n hn => hdir n hn ▸ Nat.zero_lt_one
    dir_data := fun n hn => by
      obtain rfl := hdir n hn
      rfl
    ops := fun n hn => by
      obtain rfl := Nat.lt_one_iff.mp hn
      rfl
    unlinked := fun n hn => by
      rw [ramfsRoot_node frames hn]
      rfl
    packed := fun d i j _ _ => hchild d j
    child_ne := fun d i _ hc => by
      rw [hchild] at hc
      cases hc
    child_inj := fun d i _ _ c _ _ hc _ => by
      rw [hchild] at hc
      cases hc }

end Rhoudveine.Fs
