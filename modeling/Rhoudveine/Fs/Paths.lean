import Rhoudveine.Fs.Calls

/-!
# Where a path leads

`vfs_resolve_path` walks along the components of a path, while `vfs_create` and `vfs_mkdir` split
it at the last slash and truncate the directory part to 255 bytes and the name to 31.
-/

namespace Rhoudveine.Fs
open Search Walk

variable {answers : ℕ → UInt64} {s s' : Vfs}

/-! ## Components -/

/-- A component, unless it is empty. -/
def emit (component : Str) : List Str := if component = [] then [] else [component]

/-- The components from a position where `component` has been read. -/
def scan : (component : Str) → Str → List Str
  | component, [] => emit component
  | component, c :: p =>
    if c = slash then emit component ++ scan [] p
    else if component.length = 255 then emit component ++ scan [c] p
    else scan (component ++ [c]) p

/-- The components that `vfs_resolve_path` looks up: what stands between slashes, in pieces of at
most 255 bytes. -/
def tokens (path : Str) : List Str := scan [] path

theorem scan_append_slash (component p x : Str) :
    scan component (p ++ slash :: x) = scan component p ++ tokens x := by
  induction p generalizing component with
  | nil => exact if_pos rfl
  | cons c p ih =>
    rw [List.cons_append, scan, scan]
    split
    · rw [ih, List.append_assoc]
    · split
      · rw [ih, List.append_assoc]
      · exact ih _

/-- A slash separates components. -/
theorem tokens_append_slash (p x : Str) : tokens (p ++ slash :: x) = tokens p ++ tokens x :=
  scan_append_slash [] p x

theorem scan_of_short {component x : Str} (hx : slash ∉ x)
    (hlen : component.length + x.length ≤ 255) : scan component x = emit (component ++ x) := by
  induction x generalizing component with
  | nil => rw [scan, List.append_nil]
  | cons c x ih =>
    obtain ⟨hc, hx⟩ := not_or.mp (List.mem_cons.not.mp hx)
    rw [List.length_cons] at hlen
    have hne : component.length ≠ 255 := by omega
    rw [scan, if_neg (Ne.symm hc), if_neg hne, ih hx (by simp; omega), List.append_assoc]
    rfl

theorem tokens_of_short {x : Str} (hx : slash ∉ x) (hne : x ≠ []) (hlen : x.length ≤ 255) :
    tokens x = [x] := by
  rw [tokens, scan_of_short hx (by simpa using hlen), List.nil_append, emit, if_neg hne]

/-- A longer name is cut. -/
theorem scan_of_long {component x : Str} (hx : slash ∉ x) (hle : component.length ≤ 255)
    (hlen : 255 < component.length + x.length) :
    (component ++ x).take 255 ∈ scan component x := by
  induction x generalizing component with
  | nil =>
    rw [List.length_nil] at hlen
    omega
  | cons c x ih =>
    obtain ⟨hc, hx⟩ := not_or.mp (List.mem_cons.not.mp hx)
    rw [scan, if_neg (Ne.symm hc)]
    by_cases hfull : component.length = 255
    · have hne : component ≠ [] := List.ne_nil_of_length_pos (by omega)
      rw [if_pos hfull, emit, if_neg hne, ← hfull, List.take_left]
      exact List.mem_append_left _ (List.mem_singleton_self _)
    · rw [List.length_cons] at hlen
      rw [if_neg hfull]
      have hmem : (component ++ [c] ++ x).take 255 ∈ scan (component ++ [c]) x :=
        ih hx (by simp; omega) (by simp; omega)
      rwa [List.append_assoc] at hmem

/-- What a component is. -/
structure Token (x : Str) : Prop where
  nonempty : x ≠ []
  no_slash : slash ∉ x
  length_le : x.length ≤ 255

theorem scan_token {component p : Str} (hslash : slash ∉ component) (hle : component.length ≤ 255)
    {x : Str} (hx : x ∈ scan component p) : Token x := by
  have hemit {component : Str} (hslash : slash ∉ component) (hle : component.length ≤ 255)
      (hx : x ∈ emit component) : Token x := by
    by_cases hne : component = []
    · rw [emit, if_pos hne] at hx
      cases hx
    · rw [emit, if_neg hne] at hx
      obtain rfl := List.mem_singleton.mp hx
      exact ⟨hne, hslash, hle⟩
  induction p generalizing component with
  | nil => exact hemit hslash hle hx
  | cons c p ih =>
    rw [scan] at hx
    split at hx
    · rcases List.mem_append.mp hx with hx | hx
      · exact hemit hslash hle hx
      · exact ih (List.not_mem_nil) (Nat.zero_le _) hx
    · rename_i hc
      split at hx
      · rcases List.mem_append.mp hx with hx | hx
        · exact hemit hslash hle hx
        · exact ih (by simpa using Ne.symm hc) (by simp) hx
      · apply ih _ _ hx
        · simpa using ⟨hslash, Ne.symm hc⟩
        · rw [List.length_append, List.length_singleton]
          omega

/-- The path made of components has these components. -/
theorem tokens_absolute {comps : List Str} (hcomps : ∀ x ∈ comps, Token x) :
    tokens (absolute comps) = comps := by
  have hflat : tokens (comps.flatMap (slash :: ·)) = comps := by
    induction comps using List.reverseRecOn with
    | nil => rfl
    | append_singleton init x ih =>
      have hx := hcomps x (List.mem_append_right _ (List.mem_singleton_self x))
      rw [List.flatMap_append, List.flatMap_singleton, tokens_append_slash,
        ih fun y hy => hcomps y (List.mem_append_left _ hy),
        tokens_of_short hx.no_slash hx.nonempty hx.length_le]
  unfold absolute
  split
  · rename_i hnil
    rw [hnil]
    rfl
  · exact hflat

/-- The resolver's own loop reads a component. -/
theorem scan_takeComponent {n : ℕ} {component : Str} (p : Str) (hn : component.length + n = 255) :
    scan component p =
      emit (component ++ (takeComponent n p).1) ++ tokens (skipSlash (takeComponent n p).2) := by
  induction n generalizing component p with
  | zero =>
    cases p with
    | nil => simp [takeComponent, skipSlash, scan, tokens, emit]
    | cons c p =>
      have hfull : component.length = 255 := hn
      rw [takeComponent, List.append_nil, scan, skipSlash, if_pos hfull]
      split
      · rfl
      · rename_i hc
        rw [tokens, scan, if_neg hc, if_neg (by simp)]
        rfl
  | succ n ih =>
    cases p with
    | nil => simp [takeComponent, skipSlash, scan, tokens, emit]
    | cons c p =>
      rw [takeComponent, scan]
      split
      · rename_i hc
        rw [List.append_nil, skipSlash, if_pos hc]
        rfl
      · rw [if_neg (by omega), ih p (by simp; omega), List.append_assoc]
        rfl

theorem length_takeComponent (n : ℕ) (p : Str) :
    (takeComponent n p).1.length + (takeComponent n p).2.length = p.length := by
  induction n generalizing p with
  | zero => simp [takeComponent]
  | succ n ih =>
    cases p with
    | nil => rfl
    | cons c p =>
      rw [takeComponent]
      split
      · simp
      · have hrest := ih p
        simp only [List.length_cons]
        omega

theorem length_skipSlash (p : Str) : (skipSlash p).length ≤ p.length := by
  cases p with
  | nil => exact le_rfl
  | cons c p =>
    rw [skipSlash]
    split
    · exact Nat.le_succ _
    · exact le_rfl

/-- A round of the loop reads a slash or the next component. -/
theorem tokens_round (c : UInt8) (p : Str) :
    ((takeComponent 255 (c :: p)).1 = [] ∧ skipSlash (takeComponent 255 (c :: p)).2 = p ∧
        tokens (c :: p) = tokens p) ∨
      ((takeComponent 255 (c :: p)).1 ≠ [] ∧
        (skipSlash (takeComponent 255 (c :: p)).2).length ≤ p.length ∧
        tokens (c :: p) = (takeComponent 255 (c :: p)).1 ::
          tokens (skipSlash (takeComponent 255 (c :: p)).2)) := by
  have hscan := @scan_takeComponent 255 [] (c :: p) rfl
  rw [List.nil_append] at hscan
  by_cases hempty : (takeComponent 255 (c :: p)).1 = []
  · left
    have hc : c = slash := by
      by_contra hne
      rw [takeComponent, if_neg hne] at hempty
      cases hempty
    have hrest : skipSlash (takeComponent 255 (c :: p)).2 = p := by
      rw [takeComponent, if_pos hc, skipSlash, if_pos hc]
    refine ⟨hempty, hrest, ?_⟩
    rw [tokens, hscan, hrest, hempty]
    rfl
  · right
    have hpos := List.length_pos_of_ne_nil hempty
    have hlen := length_takeComponent 255 (c :: p)
    have hskip := length_skipSlash (takeComponent 255 (c :: p)).2
    rw [List.length_cons] at hlen
    refine ⟨hempty, by omega, ?_⟩
    rw [tokens, hscan, emit, if_neg hempty]
    rfl

/-- Induction along the loop over the components of a path, with enough rounds. -/
theorem rounds_induction {motive : ℕ → Str → Prop} (nil : ∀ rounds, motive rounds [])
    (slash : ∀ rounds c p, (takeComponent 255 (c :: p)).1 = [] →
      skipSlash (takeComponent 255 (c :: p)).2 = p → tokens (c :: p) = tokens p →
      motive rounds p → motive (rounds + 1) (c :: p))
    (component : ∀ rounds c p, (takeComponent 255 (c :: p)).1 ≠ [] →
      tokens (c :: p) = (takeComponent 255 (c :: p)).1 ::
        tokens (skipSlash (takeComponent 255 (c :: p)).2) →
      motive rounds (skipSlash (takeComponent 255 (c :: p)).2) → motive (rounds + 1) (c :: p))
    {rounds : ℕ} {p : Str} (hrounds : p.length ≤ rounds) : motive rounds p := by
  induction rounds generalizing p with
  | zero =>
    rw [List.length_eq_zero_iff.mp (Nat.le_zero.mp hrounds)]
    exact nil 0
  | succ rounds ih =>
    cases p with
    | nil => exact nil _
    | cons c p =>
      have hrounds := Nat.le_of_succ_le_succ hrounds
      rcases tokens_round c p with ⟨hempty, hrest, htokens⟩ | ⟨hempty, hlen, htokens⟩
      · exact slash rounds c p hempty hrest htokens (ih hrounds)
      · exact component rounds c p hempty htokens (ih (hlen.trans hrounds))

/-! ## Lookups -/

/-- The child of this name, or the root of what is mounted there. -/
def enter (s : Vfs) (n : ℕ) (x : Str) : Option ℕ := (ramfsFinddir s n x).bind (followMount s)

/-- A lookup finds what a slot of this name holds. -/
theorem Forest.finddir_slot {roots : Finset ℕ} (h : Forest s roots) {n c : ℕ} {x : Str}
    (hf : ramfsFinddir s n x = some c) :
    (s.ramfsNodePool n).isDir ∧
      ∃ i, (s.ramfsDataPool n).children i = some c ∧ (s.ramfsDataPool n).childNames i = x := by
  unfold ramfsFinddir at hf
  by_cases hdir : (s.ramfsNodePool n).isDir
  · simp only [not_not.mpr hdir, if_false, (h.dir_data n hdir).2] at hf
    obtain ⟨i, -, -, hi, -⟩ := firstSome_eq_some.mp hf
    obtain ⟨c', hc', heq⟩ := Option.bind_eq_some_iff.mp hi
    split at heq
    · rename_i hname
      obtain rfl := Option.some.inj heq
      exact ⟨hdir, i, hc', hname.symm⟩
    · cases heq
  · simp [hdir] at hf

/-- A lookup reads the directory's node and its block. -/
theorem Forest.finddir_congr {roots : Finset ℕ} (h : Forest s roots) {n : ℕ}
    (hdir : (s'.ramfsNodePool n).isDir ↔ (s.ramfsNodePool n).isDir)
    (hdata : (s'.ramfsNodePool n).fsData = (s.ramfsNodePool n).fsData)
    (hpool : s'.ramfsDataPool n = s.ramfsDataPool n) (x : Str) :
    ramfsFinddir s' n x = ramfsFinddir s n x := by
  unfold ramfsFinddir
  dsimp only
  by_cases hisdir : (s.ramfsNodePool n).isDir
  · rw [if_neg (not_not.mpr hisdir), if_neg (not_not.mpr (hdir.mpr hisdir)), hdata,
      (h.dir_data n hisdir).2]
    dsimp only
    rw [hpool]
  · rw [if_pos hisdir, if_pos (hdir.not.mpr hisdir)]

namespace Planted

theorem finddir_slot (h : Planted s) {n c : ℕ} {x : Str} (hf : ramfsFinddir s n x = some c) :
    (s.ramfsNodePool n).isDir ∧
      ∃ i, (s.ramfsDataPool n).children i = some c ∧ (s.ramfsDataPool n).childNames i = x := by
  obtain ⟨roots, hforest⟩ := h.forest
  exact hforest.finddir_slot hf

theorem followMount_le (h : Planted s) {n m : ℕ} (hm : followMount s n = some m) : n ≤ m := by
  rcases followMount_cases s n with ⟨heq, -⟩ | ⟨k, hk, heq⟩
  · exact (Option.some.inj (heq.symm.trans hm)).le
  · exact h.link_le n k m hk (heq.symm.trans hm)

/-- Lookups lead to higher indices. -/
theorem enter_lt (h : Planted s) (n : ℕ) (x : Str) (m : ℕ) (hm : enter s n x = some m) : n < m := by
  obtain ⟨c, hc, hcm⟩ := Option.bind_eq_some_iff.mp hm
  obtain ⟨-, i, hi, -⟩ := h.finddir_slot hc
  exact (h.child_gt hi).1.trans_le (h.followMount_le hcm)

theorem enter_name (h : Planted s) {n m : ℕ} {x : Str} (hm : enter s n x = some m) :
    x.length ≤ 31 := by
  obtain ⟨c, hc, -⟩ := Option.bind_eq_some_iff.mp hm
  obtain ⟨-, i, hi, hx⟩ := h.finddir_slot hc
  have hle := h.name_le n i (by simp [hi])
  rwa [hx] at hle

theorem resolveLoop_walk (h : Planted s) {rounds cur : ℕ} {p : Str} (hcur : cur < s.ramfsNodeCount)
    (hrounds : p.length ≤ rounds) :
    Fs.resolveLoop s rounds (some cur) p = .ofPointer (walk (enter s) cur (tokens p)) := by
  refine rounds_induction (motive := fun rounds p => ∀ cur : ℕ, cur < s.ramfsNodeCount →
    Fs.resolveLoop s rounds (some cur) p = .ofPointer (walk (enter s) cur (tokens p)))
    ?_ ?_ ?_ hrounds cur hcur
  · intro rounds cur _
    cases rounds <;> rfl
  · intro rounds c p hempty hrest htokens ih cur hcur
    rw [resolveLoop_empty _ _ _ hempty, hrest, htokens]
    exact ih cur hcur
  · intro rounds c p hempty htokens ih cur hcur
    rw [resolveLoop_component _ _ _ hempty, h.ops cur hcur, htokens, walk, enter]
    dsimp only
    cases hf : ramfsFinddir s cur (takeComponent 255 (c :: p)).1 with
    | none => rfl
    | some next =>
      obtain ⟨m, hm, heq⟩ := h.toShaped.followMount (h.toShaped.finddir_lt hcur hf)
      dsimp only
      rw [Option.bind_some, heq, Option.bind_some]
      exact ih m hm

/-- An absolute path resolves to the end of the walk along its components. -/
theorem resolve_walk (h : Planted s) {root : ℕ} (hroot : s.gVfsRoot = some root) {path : Str}
    (hpath : path.head? = some slash) :
    vfsResolvePath s path = .ofPointer (walk (enter s) root (tokens path)) := by
  cases path with
  | nil => cases hpath
  | cons c p =>
    obtain rfl : c = slash := Option.some.inj hpath
    have htokens : tokens (slash :: p) = tokens p := tokens_append_slash [] p
    unfold vfsResolvePath
    rw [htokens, hroot]
    dsimp only
    rw [if_neg (not_not.mpr rfl)]
    split
    · rename_i hnil
      rw [hnil]
      rfl
    · exact h.resolveLoop_walk (h.root_lt root hroot) le_rfl

end Planted

/-! ## The new child -/

section created

variable {parent : ℕ} {name : Str} {flags : UInt32}

/-- The new child is found unless an older one has its name, cut to 31 bytes. -/
theorem Forest.finddir_created {roots : Finset ℕ} (h : Forest s roots)
    (hc : Created s parent name flags s') (x : Str) :
    ramfsFinddir s' parent x =
      (ramfsFinddir s parent x).or (if x = name.take 31 then some s.ramfsNodeCount else none) := by
  obtain ⟨hdir, hdata, hfree, -, hslot, -⟩ := hc
  rename_i p slot
  obtain ⟨hp, hown⟩ := h.dir_data parent hdir
  obtain rfl : parent = p := FsData.dir.inj (hown.symm.trans hdata)
  have hdir' : ((enterChild s parent slot name flags).ramfsNodePool parent).isDir := by
    rw [enterChild_old (Nat.ne_of_lt hp)]
    exact hdir
  have hfind (t : Vfs) (ht : (t.ramfsNodePool parent).isDir)
      (hd : (t.ramfsNodePool parent).fsData = .dir parent) :
      ramfsFinddir t parent x = firstSome (fun i => ((t.ramfsDataPool parent).children i).bind
        fun c => if x = (t.ramfsDataPool parent).childNames i then some c else none)
        ramfsMaxChildren 0 := by
    unfold ramfsFinddir
    dsimp only
    rw [if_neg (not_not.mpr ht), hd]
  rw [hfind _ hdir' (by rw [enterChild_old (Nat.ne_of_lt hp)]; exact hdata), hfind s hdir hdata,
    enterChild_parent hp]
  dsimp only
  have hupdate := firstSome_update
    (f := fun i => ((s.ramfsDataPool parent).children i).bind fun c =>
      if x = (s.ramfsDataPool parent).childNames i then some c else none)
    (g := fun i =>
      (Function.update (s.ramfsDataPool parent).children slot (some s.ramfsNodeCount) i).bind
        fun c => if x = Function.update (s.ramfsDataPool parent).childNames slot (name.take 31) i
          then some c else none) hslot
    (fun i hi => by simp only [Function.update_of_ne hi])
    (fun i hi => by rw [h.packed parent slot i hi hfree, Option.bind_none])
  simp only [Function.update_self, Option.bind_some] at hupdate
  exact hupdate

/-- Lookups in other directories stay. -/
theorem Forest.finddir_created_of_ne {roots : Finset ℕ} (h : Forest s roots)
    (hc : Created s parent name flags s') {n : ℕ} (hn : n < s.ramfsNodeCount) (hne : n ≠ parent)
    (x : Str) : ramfsFinddir s' n x = ramfsFinddir s n x := by
  obtain ⟨hdir, hdata, -, -, -, -⟩ := hc
  rename_i p slot
  obtain ⟨hp, hown⟩ := h.dir_data parent hdir
  obtain rfl : parent = p := FsData.dir.inj (hown.symm.trans hdata)
  unfold ramfsFinddir
  rw [enterChild_old (Nat.ne_of_lt hn)]
  by_cases hdir' : (s.ramfsNodePool n).isDir
  · simp only [(h.dir_data n hdir').2, enterChild_oldDir (Nat.ne_of_lt hn) hne]
  · simp only [if_pos hdir']

theorem Planted.finddir_created (h : Planted s) (hc : Created s parent name flags s') (x : Str) :
    ramfsFinddir s' parent x =
      (ramfsFinddir s parent x).or (if x = name.take 31 then some s.ramfsNodeCount else none) := by
  obtain ⟨roots, hforest⟩ := h.forest
  exact hforest.finddir_created hc x

theorem followMount_created (hc : Created s parent name flags s') {c : ℕ}
    (hlt : c < s.ramfsNodeCount) : followMount s' c = followMount s c := by
  obtain ⟨-, -, -, -, -, -⟩ := hc
  unfold followMount
  rw [enterChild_old (Nat.ne_of_lt hlt)]
  rfl

theorem followMount_new (hc : Created s parent name flags s') :
    followMount s' s.ramfsNodeCount = some s.ramfsNodeCount := by
  obtain ⟨-, -, -, -, -, -⟩ := hc
  unfold followMount
  rw [enterChild_new]
  dsimp only [newNode, Node.zero]
  split <;> rfl

/-- Lookups elsewhere stay. -/
theorem Planted.enter_created (h : Planted s) (hc : Created s parent name flags s') {n : ℕ}
    (hn : n < s.ramfsNodeCount) (hne : n ≠ parent) (x : Str) : enter s' n x = enter s n x := by
  obtain ⟨roots, hforest⟩ := h.forest
  rw [enter, enter, hforest.finddir_created_of_ne hc hn hne]
  apply Option.bind_congr
  intro c hf
  exact followMount_created hc (h.toShaped.finddir_lt hn hf)

end created

/-! ## Paths of new nodes -/

/-- The directory part of a path, not truncated. -/
def wholeDirname (path : Str) : Str :=
  match lastSlash path with
  | none => str "."
  | some i => path.take (if i = 0 then 1 else i)

/-- The name is not empty and is stored whole, the directory has no child of this name, and its
path leads to the same node before and after it is truncated. -/
structure Splits (s : Vfs) (path : Str) : Prop where
  named : vfsBasename path ≠ []
  name_le : (vfsBasename path).length ≤ 31
  new : ∀ parent, vfsResolvePath s (vfsDirname path) = .node parent →
    ramfsFinddir s parent (vfsBasename path) = none
  whole : vfsResolvePath s (wholeDirname path) = vfsResolvePath s (vfsDirname path)

/-- The path leads to the node that was just created, in the directory that all components but
the last lead to. -/
def LeadsToNew (s : Vfs) (path : Str) (s' : Vfs) : Prop :=
  vfsResolvePath s' path = .node s.ramfsNodeCount ∧
    ∃ parent i, vfsResolvePath s' (absolute (tokens path).dropLast) = .node parent ∧
      Slot s' parent i s.ramfsNodeCount

/-- A path at its last slash. -/
theorem split_lastSlash {path : Str} (h : slash ∈ path) :
    ∃ pre x, path = pre ++ slash :: x ∧ slash ∉ x := by
  induction path with
  | nil => cases h
  | cons c p ih =>
    by_cases hp : slash ∈ p
    · obtain ⟨pre, x, rfl, hx⟩ := ih hp
      exact ⟨c :: pre, x, rfl, hx⟩
    · rcases List.mem_cons.mp h with rfl | hmem
      · exact ⟨[], p, rfl, hp⟩
      · exact absurd hmem hp

theorem vfsBasename_append {pre x : Str} (hx : slash ∉ x) :
    vfsBasename (pre ++ slash :: x) = x := by
  rw [vfsBasename, lastSlash_append hx]
  change List.drop (pre.length + 1) _ = x
  rw [← List.drop_drop, List.drop_left]
  rfl

theorem wholeDirname_append {pre x : Str} (hx : slash ∉ x) :
    wholeDirname (pre ++ slash :: x) = if pre = [] then [slash] else pre := by
  rw [wholeDirname, lastSlash_append hx]
  by_cases hpre : pre = []
  · subst hpre
    rfl
  · have hne : pre.length ≠ 0 := by rwa [Ne, List.length_eq_zero_iff]
    simp only [if_neg hne, if_neg hpre, List.take_left]

theorem Planted.resolve_wholeDirname (h : Planted s) {root : ℕ} (hroot : s.gVfsRoot = some root)
    {pre x : Str} (hpath : (pre ++ slash :: x).head? = some slash) (hx : slash ∉ x) :
    vfsResolvePath s (wholeDirname (pre ++ slash :: x)) =
      .ofPointer (walk (enter s) root (tokens pre)) := by
  rw [wholeDirname_append hx]
  split
  · rename_i hpre
    subst hpre
    exact vfsResolvePath_slash hroot
  · rename_i hpre
    apply h.resolve_walk hroot
    cases pre with
    | nil => exact absurd rfl hpre
    | cons c pre => exact hpath

theorem Resolved.ofPointer_eq_node {p : Option ℕ} {n : ℕ} :
    Resolved.ofPointer p = .node n ↔ p = some n := by
  cases p with
  | none => simp [Resolved.ofPointer]
  | some m => simp [Resolved.ofPointer]

section agree

variable {parent : ℕ} {name : Str} {flags : UInt32} {root : ℕ}

/-- The walk to the directory is the same before and after the new child. -/
theorem Planted.walk_parent (h : Planted s) (hc : Created s parent name flags s')
    (hparent : parent < s.ramfsNodeCount) {xs : List Str} :
    walk (enter s') root xs = some parent ↔ walk (enter s) root xs = some parent := by
  have hedge (n : ℕ) (x : Str) (hn : n < parent) : enter s' n x = enter s n x :=
    h.enter_created hc (hn.trans hparent) (Nat.ne_of_lt hn) x
  constructor
  · exact walk_agree (h.created hc).enter_lt fun n x hn _ => (hedge n x hn).symm
  · exact walk_agree h.enter_lt fun n x hn _ => hedge n x hn

/-- A lookup ends at the new node only in its directory, by its stored name. -/
theorem Planted.enter_new (h : Planted s) (hc : Created s parent name flags s')
    (hparent : parent < s.ramfsNodeCount) {x : Str} :
    enter s' parent x = some s.ramfsNodeCount ↔
      ramfsFinddir s parent x = none ∧ x = name.take 31 := by
  rw [enter, h.finddir_created hc]
  cases hf : ramfsFinddir s parent x with
  | some c =>
    have hlt := h.toShaped.finddir_lt hparent hf
    rw [Option.some_or, Option.bind_some, followMount_created hc hlt]
    constructor
    · intro heq
      obtain ⟨m, hm, hfollow⟩ := h.toShaped.followMount hlt
      rw [hfollow] at heq
      exact absurd (Option.some.inj heq) (Nat.ne_of_lt hm)
    · rintro ⟨hnone, -⟩
      cases hnone
  | none =>
    rw [Option.none_or]
    by_cases hx : x = name.take 31
    · rw [if_pos hx, Option.bind_some]
      exact iff_of_true (followMount_new hc) ⟨rfl, hx⟩
    · rw [if_neg hx]
      exact iff_of_false (by simp) fun hboth => hx hboth.2

end agree

/-- The new child has one slot. -/
theorem Planted.slot_created (h : Planted s) {parent : ℕ} {name : Str} {flags : UInt32}
    (hc : Created s parent name flags s') :
    parent < s.ramfsNodeCount ∧ (∃ i, Slot s' parent i s.ramfsNodeCount) ∧
      ∀ d i, Slot s' d i s.ramfsNodeCount → d = parent := by
  obtain ⟨roots, hf⟩ := (h.created hc).forest
  obtain ⟨hdir, hdata, -, -, -, -⟩ := hc
  rename_i p slot
  obtain ⟨hp, hown⟩ := h.dir_data hdir
  obtain rfl : parent = p := FsData.dir.inj (hown.symm.trans hdata)
  have hslot : ((enterChild s parent slot name flags).ramfsDataPool parent).children slot =
      some s.ramfsNodeCount := by
    rw [enterChild_parent hp]
    exact Function.update_self ..
  refine ⟨hp, ⟨slot, hf.slot_iff.mpr hslot⟩, fun d i hi => ?_⟩
  exact (hf.inj d i parent slot _ (hf.slot_iff.mp hi) hslot).1

theorem mem_tokens_of_long {x : Str} (hx : slash ∉ x) (hlen : 255 < x.length) :
    x.take 255 ∈ tokens x := by
  apply scan_of_long hx (Nat.zero_le _)
  rwa [List.length_nil, Nat.zero_add]

theorem Planted.leadsToNew_iff (h : Planted s) {op : Vfs → ℕ → Str → ℤ × Vfs} {flags : UInt32}
    (hop : ∀ s parent name, op s parent name = ramfsCreate s parent name flags) {path : Str}
    (hpath : path.head? = some slash) (hok : createAt op s path = some (0, s')) :
    LeadsToNew s path s' ↔ Splits s path := by
  rcases createAt_cases hop hok with ⟨hr, -⟩ | ⟨-, parent, hres, hc⟩
  · cases hr
  obtain ⟨hparent, ⟨i, hslot⟩, hunique⟩ := h.slot_created hc
  have h' := h.created hc
  obtain ⟨root, hroot⟩ : ∃ root, s.gVfsRoot = some root := by
    by_contra hnone
    rw [← Option.ne_none_iff_exists', not_not] at hnone
    rw [vfsResolvePath_of_no_root hnone] at hres
    cases hres
  have hroot' : s'.gVfsRoot = some root := by
    obtain ⟨-, -, -, -, -, -⟩ := hc
    exact hroot
  have hslash : slash ∈ path := List.mem_of_mem_head? hpath
  obtain ⟨pre, x, rfl, hx⟩ := split_lastSlash hslash
  rw [vfsBasename_append hx] at hc
  have htokens := tokens_append_slash pre x
  have hmade := h'.resolve_walk hroot' hpath
  have hdirname := h.resolve_wholeDirname hroot hpath hx
  have hinit (ts : List Str) (hts : ∀ y ∈ ts, Token y) :
      vfsResolvePath s' (absolute ts) = .ofPointer (walk (enter s') root ts) := by
    have hhead : (absolute ts).head? = some slash := by
      cases ts with
      | nil => rfl
      | cons y ys => rfl
    rw [h'.resolve_walk hroot' hhead, tokens_absolute hts]
  have htoken (y : Str) (hy : y ∈ tokens (pre ++ slash :: x)) : Token y :=
    scan_token List.not_mem_nil (Nat.zero_le _) hy
  constructor
  · rintro ⟨hnew, parent', j, hto, hslot'⟩
    obtain rfl := hunique parent' j hslot'
    rw [hmade, Resolved.ofPointer_eq_node] at hnew
    rw [hinit _ fun y hy => htoken y (List.dropLast_subset _ hy), Resolved.ofPointer_eq_node] at hto
    -- every component on the way is a stored name
    have hshort (y : Str) (hy : y ∈ tokens (pre ++ slash :: x)) : y.length ≤ 31 := by
      obtain ⟨n, m, hm⟩ := walk_names hnew hy
      exact h'.enter_name hm
    rw [htokens] at hnew hto hshort
    have hxlen : x.length ≤ 255 := by
      by_contra hlong
      have hmem := mem_tokens_of_long hx (Nat.lt_of_not_le hlong)
      have hle := hshort _ (List.mem_append_right _ hmem)
      rw [List.length_take] at hle
      omega
    have hne : x ≠ [] := by
      rintro rfl
      rcases List.eq_nil_or_concat (tokens pre ++ tokens []) with hnil | ⟨ts, t, hts⟩
      · rw [hnil] at hnew
        have hlt := h.root_lt root hroot
        rw [Option.some.inj hnew] at hlt
        exact lt_irrefl _ hlt
      · -- the last component is not empty, but the stored name is
        rw [List.concat_eq_append] at hts
        rw [hts] at hnew hto
        rw [List.dropLast_concat] at hto
        rw [walk_concat_some hto, h.enter_new hc hparent] at hnew
        have hmem : t ∈ tokens (pre ++ slash :: []) := by
          rw [htokens, hts]
          exact List.mem_append_right _ (List.mem_singleton_self t)
        exact (htoken t hmem).nonempty hnew.2
    have hone := tokens_of_short hx hne hxlen
    rw [hone] at hnew hto hshort
    rw [List.dropLast_concat] at hto
    rw [walk_concat_some hto, h.enter_new hc hparent] at hnew
    have hwhole := (h.walk_parent hc hparent).mp hto
    exact {
      named := by rwa [vfsBasename_append hx]
      name_le := by
        rw [vfsBasename_append hx]
        exact hshort x (List.mem_append_right _ (List.mem_singleton_self x))
      new := fun p hp => by
        obtain rfl := Resolved.node.inj (hres.symm.trans hp)
        rw [vfsBasename_append hx]
        exact hnew.1
      whole := by rw [hdirname, hwhole, hres, Resolved.ofPointer] }
  · rintro ⟨hne, hle, hfresh, hwhole⟩
    rw [vfsBasename_append hx] at hne hle hfresh
    rw [hdirname, hres, Resolved.ofPointer_eq_node] at hwhole
    have hto := (h.walk_parent hc hparent).mpr hwhole
    have hone := tokens_of_short hx hne (hle.trans (by norm_num))
    rw [hone] at htokens
    refine ⟨?_, parent, i, ?_, hslot⟩
    · rw [hmade, htokens, walk_concat_some hto, Resolved.ofPointer_eq_node, h.enter_new hc hparent]
      exact ⟨hfresh parent hres, (List.take_of_length_le hle).symm⟩
    · rw [hinit _ fun y hy => htoken y (List.dropLast_subset _ hy), htokens, List.dropLast_concat,
        hto, Resolved.ofPointer]

/-- In every state that calls reach, a path made by `vfs_create` or `vfs_mkdir` leads to the new
node exactly when it splits. -/
theorem create_leadsToNew_iff {frames : UInt64 → ℕ → UInt8} {calls : List VfsCall}
    (hrun : Run (vfsStep answers) (vfsInit frames) calls s)
    {op : Vfs → (path : Str) → Option (ℤ × Vfs)} (hop : op = vfsCreate ∨ op = vfsMkdir) {path : Str}
    (hpath : path.head? = some slash) (hok : op s path = some (0, s')) :
    LeadsToNew s path s' ↔ Splits s path := by
  rcases hop with rfl | rfl
  · exact (Planted.run hrun).leadsToNew_iff (fun _ _ _ => rfl) hpath hok
  · exact (Planted.run hrun).leadsToNew_iff (fun _ _ _ => rfl) hpath hok

def rootOnly : Vfs := ramfsRoot fun _ _ => 0

theorem rootOnly_run :
    Run (vfsStep answers) (vfsInit fun _ _ => 0) [.mount (str "/") (str "ramfs")] rootOnly := by
  have hstep : vfsStep answers (vfsInit fun _ _ => 0) (.mount (str "/") (str "ramfs")) rootOnly :=
    ⟨.ofValue 0, by rw [vfsCall, ramfsRoot_mount]; rfl⟩
  exact .cons hstep (.nil _)

def madeEtc : ℤ × Vfs := (vfsMkdir rootOnly (str "/etc")).get (by decide +kernel)

def withEtc : Vfs := madeEtc.2

theorem rootOnly_mkdir : vfsMkdir rootOnly (str "/etc") = some (0, withEtc) := by
  have hzero : madeEtc.1 = 0 := by decide +kernel
  have hmade : vfsMkdir rootOnly (str "/etc") = some madeEtc := (Option.some_get _).symm
  rw [hmade]
  exact congrArg some (Prod.ext hzero rfl)

/-- `/etc` leads to its new node. -/
theorem create_leadsToNew_iff_etc :
    ∃ s', vfsMkdir rootOnly (str "/etc") = some (0, s') ∧
      (LeadsToNew rootOnly (str "/etc") s' ↔ Splits rootOnly (str "/etc")) := by
  have hrun := @rootOnly_run fun _ => 0
  exact ⟨withEtc, rootOnly_mkdir,
    create_leadsToNew_iff hrun (Or.inr rfl) (by decide) rootOnly_mkdir⟩

theorem withEtc_run :
    Run (vfsStep answers) (vfsInit fun _ _ => 0)
      [.mount (str "/") (str "ramfs"), .mkdir (str "/etc")] withEtc := by
  have hstep : vfsStep answers rootOnly (.mkdir (str "/etc")) withEtc :=
    ⟨.ofValue 0, by rw [vfsCall, rootOnly_mkdir]; rfl⟩
  exact rootOnly_run.append (.cons hstep (.nil _))

/-- With a trailing slash, a directory without a name is created inside `/etc`, and the path
still leads to `/etc`. -/
theorem trailing_slash_not_new :
    Run (vfsStep fun _ => 0) (vfsInit fun _ _ => 0)
        [.mount (str "/") (str "ramfs"), .mkdir (str "/etc")] withEtc ∧
      ∃ s', vfsMkdir withEtc (str "/etc/") = some (0, s') ∧
        ¬ LeadsToNew withEtc (str "/etc/") s' := by
  have hresult : (vfsMkdir withEtc (str "/etc/")).map
      (fun out => (out.1, vfsResolvePath out.2 (str "/etc/"))) = some (0, .node 1) := by
    decide +kernel
  obtain ⟨⟨r, s'⟩, hmkdir, heq⟩ := Option.map_eq_some_iff.mp hresult
  obtain ⟨rfl, hres⟩ := Prod.mk.inj heq
  refine ⟨withEtc_run, s', hmkdir, fun hleads => ?_⟩
  have hcount : withEtc.ramfsNodeCount = 2 := by decide +kernel
  rw [LeadsToNew, hcount, hres] at hleads
  cases hleads.1

end Rhoudveine.Fs
