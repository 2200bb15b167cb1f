import Rhoudveine.Fs.Joint

/-!
# Paths as lists of components

`vfs_resolve_path` for any file systems behind the pointers `finddir`: a left fold over the
components of the path.  A lookup may change the state of its file system.
-/

namespace Rhoudveine.Fs.Lookup

variable {σ ν : Type*}

/-- What `vfs_resolve_path` uses of a `struct vfs_node`. -/
structure NodeOps (σ ν : Type*) where
  /-- `finddir`; `none` is a null pointer. -/
  finddir : σ → ν → Option (Str → Option ν × σ)
  /-- `mount->root` of a node with the flag `VFS_MOUNTPOINT` and a mount. -/
  mountRoot : σ → ν → Option (Option ν)

/-- The pointer that `vfs_resolve_path` returns, or a dereference of a null pointer. -/
inductive Outcome (σ ν : Type*)
  | returned (node : Option ν) (s : σ)
  | crash

variable (ops : NodeOps σ ν)

/-- The node, or the root of what is mounted there. -/
def followMount (s : σ) (next : ν) : Option ν := (ops.mountRoot s next).getD (some next)

/-- The loop of `vfs_resolve_path`. -/
def resolveLoop : (rounds : ℕ) → (current : Option ν) → σ → Str → Outcome σ ν
  | _, current, s, [] => .returned current s
  | 0, _, s, _ :: _ => .returned none s
  | rounds + 1, current, s, c :: p =>
    let component := (takeComponent 255 (c :: p)).1
    let p := skipSlash (takeComponent 255 (c :: p)).2
    if component = [] then resolveLoop rounds current s p
    else
      match current with
      | none => .crash
      | some current =>
        match ops.finddir s current with
        | none => .returned none s
        | some find =>
          match find component with
          | (none, s) => .returned none s
          | (some next, s) => resolveLoop rounds (followMount ops s next) s p

def vfsResolvePath (gVfsRoot : Option ν) (s : σ) (path : Str) : Outcome σ ν :=
  match gVfsRoot, path with
  | none, _ => .returned none s
  | some _, [] => .returned none s
  | some root, c :: p =>
    if c ≠ slash then .returned none s
    else if p = [] then .returned (some root) s
    else resolveLoop ops p.length (some root) s p

/-! ## The fold -/

/-- The nonempty strings between slashes. -/
def components (path : Str) : List Str := (path.splitOn slash).filter (· ≠ [])

/-- Look a component up and step onto what is mounted there. -/
def stepInto : Option ν × σ → Str → Except (Outcome σ ν) (Option ν × σ)
  | (none, _), _ => .error .crash
  | (some current, s), component =>
    match ops.finddir s current with
    | none => .error (.returned none s)
    | some find =>
      match find component with
      | (none, s) => .error (.returned none s)
      | (some next, s) => .ok (followMount ops s next, s)

/-- What a fold ends with, early or not. -/
def finish : Except (Outcome σ ν) (Option ν × σ) → Outcome σ ν
  | .error out => out
  | .ok (current, s) => .returned current s

/-- The left fold from the root. -/
def foldPath (gVfsRoot : Option ν) (s : σ) (comps : List Str) : Outcome σ ν :=
  match gVfsRoot with
  | none => .returned none s
  | some root => finish (comps.foldlM (stepInto ops) (some root, s))

/-! ## Reading components off the path -/

/-- Where no component is cut, the resolver reads what stands between slashes. -/
theorem scan_eq_split {component p : Str}
    (hlen : ∀ x ∈ (p.splitOn slash).modifyHead (component ++ ·), x.length ≤ 255) :
    scan component p = ((p.splitOn slash).modifyHead (component ++ ·)).filter (· ≠ []) := by
  induction p generalizing component with
  | nil =>
    by_cases hne : component = []
    · simp [scan, emit, hne]
    · simp [scan, emit, hne]
  | cons c p ih =>
    rw [List.splitOn_cons_eq_if_modifyHead] at hlen ⊢
    by_cases hc : c = slash
    · rw [scan, if_pos hc]
      rw [if_pos (beq_iff_eq.mpr hc)] at hlen ⊢
      have hrest : scan [] p = (p.splitOn slash).filter (· ≠ []) := by
        have hnone : (p.splitOn slash).modifyHead (fun x => [] ++ x) = p.splitOn slash :=
          List.modifyHead_id ▸ rfl
        have hscan := @ih []
        rw [hnone] at hscan
        apply hscan
        intro x hx
        exact hlen x (List.mem_cons_of_mem _ hx)
      rw [hrest]
      by_cases hne : component = []
      · simp [emit, hne]
      · simp [emit, hne]
    · rw [if_neg (by simpa using hc), List.modifyHead_modifyHead] at hlen ⊢
      have hmove : (fun x => component ++ x) ∘ List.cons c = fun x => component ++ [c] ++ x := by
        funext x
        simp
      rw [hmove] at hlen ⊢
      have hroom : component.length ≠ 255 := by
        obtain ⟨x, xs, hx⟩ := List.exists_cons_of_ne_nil (List.splitOn_ne_nil slash p)
        rw [hx] at hlen
        have hhead := hlen (component ++ [c] ++ x) List.mem_cons_self
        simp only [List.length_append, List.length_singleton] at hhead
        omega
      rw [scan, if_neg hc, if_neg hroom]
      exact ih hlen

/-- A slash separates components. -/
theorem components_append_slash (p x : Str) :
    components (p ++ slash :: x) = components p ++ components x := by
  rw [components, List.splitOn_append_cons_self, List.filter_append]
  rfl

@[simp] theorem components_cons_slash (x : Str) : components (slash :: x) = components x :=
  components_append_slash [] x

theorem components_of_not_mem {x : Str} (hne : x ≠ []) (hx : slash ∉ x) : components x = [x] := by
  rw [components, List.splitOn_eq_singleton hx]
  simpa using hne

theorem components_dropWhile (p : Str) : components (p.dropWhile (· = slash)) = components p := by
  induction p with
  | nil => rfl
  | cons c p ih =>
    by_cases hc : c = slash
    · subst hc
      rw [List.dropWhile_cons_of_pos (by simp), ih, components_cons_slash]
    · rw [List.dropWhile_cons_of_neg (by simpa using hc)]

/-- What stands before the first slash is a component, unless there is nothing. -/
theorem components_takeWhile {c : UInt8} (hc : c ≠ slash) (p : Str) :
    components (c :: p) = (c :: p).takeWhile (· ≠ slash) ::
      components ((c :: p).dropWhile (· ≠ slash)) := by
  have hne : (c :: p).takeWhile (· ≠ slash) ≠ [] := by
    rw [List.takeWhile_cons_of_pos (by simpa using hc)]
    exact List.cons_ne_nil _ _
  have hno : slash ∉ (c :: p).takeWhile (· ≠ slash) := fun hmem => by
    simpa using List.mem_takeWhile_imp hmem
  have hrest : (c :: p).dropWhile (· ≠ slash) = [] ∨
      ∃ rest, (c :: p).dropWhile (· ≠ slash) = slash :: rest := by
    have hhead := List.head?_dropWhile_not (fun d => decide (d ≠ slash)) (c :: p)
    revert hhead
    cases (c :: p).dropWhile (· ≠ slash) with
    | nil => simp
    | cons d rest => simp +contextual
  have hsplit := List.takeWhile_append_dropWhile (p := fun d => decide (d ≠ slash)) (l := c :: p)
  generalize (c :: p).takeWhile (· ≠ slash) = x at *
  rcases hrest with hrest | ⟨rest, hrest⟩
  · rw [hrest, List.append_nil] at hsplit
    rw [hrest, ← hsplit, components_of_not_mem hne hno]
    rfl
  · rw [hrest] at hsplit
    rw [hrest, ← hsplit, components_append_slash, components_of_not_mem hne hno,
      components_cons_slash]
    rfl

/-- The components are no longer than the path, each of them with a slash. -/
theorem components_length_le (p : Str) :
    ((components p).map fun x => x.length + 1).sum ≤ p.length + 1 := by
  have hsum : (((p.splitOn slash).map fun x => x.length + 1)).sum = p.length + 1 := by
    induction p with
    | nil => rfl
    | cons c p ih =>
      rw [List.splitOn_cons_eq_if_modifyHead]
      obtain ⟨x, xs, hx⟩ := List.exists_cons_of_ne_nil (List.splitOn_ne_nil slash p)
      rw [hx] at ih ⊢
      split_ifs
      · simp only [List.map_cons, List.sum_cons, List.length_nil, List.length_cons] at ih ⊢
        omega
      · simp only [List.modifyHead_cons, List.map_cons, List.sum_cons, List.length_cons] at ih ⊢
        omega
  rw [← hsum]
  exact (List.filter_sublist.map _).sum_le_sum fun _ _ => Nat.zero_le _

theorem components_subset {p x : Str} (hx : x ∈ components p) : x ⊆ p := by
  have hpart := (List.mem_filter.mp hx).1
  clear hx
  induction p generalizing x with
  | nil =>
    obtain rfl : x = [] := by simpa using hpart
    exact List.nil_subset _
  | cons c p ih =>
    rw [List.splitOn_cons_eq_if_modifyHead] at hpart
    obtain ⟨y, ys, hy⟩ := List.exists_cons_of_ne_nil (List.splitOn_ne_nil slash p)
    rw [hy] at hpart ih
    split_ifs at hpart
    · rcases List.mem_cons.mp hpart with rfl | hpart
      · exact List.nil_subset _
      · exact List.subset_cons_of_subset _ (ih hpart)
    · rw [List.modifyHead_cons] at hpart
      rcases List.mem_cons.mp hpart with rfl | hpart
      · exact List.cons_subset_cons _ (ih List.mem_cons_self)
      · exact List.subset_cons_of_subset _ (ih (List.mem_cons_of_mem _ hpart))

theorem mem_components {p x : Str} (hx : x ∈ components p) : x ≠ [] ∧ slash ∉ x := by
  have hmem := List.mem_filter.mp hx
  refine ⟨by simpa using hmem.2, ?_⟩
  have hpart := hmem.1
  clear hmem hx
  induction p generalizing x with
  | nil =>
    obtain rfl : x = [] := by simpa using hpart
    exact List.not_mem_nil
  | cons c p ih =>
    rw [List.splitOn_cons_eq_if_modifyHead] at hpart
    obtain ⟨y, ys, hy⟩ := List.exists_cons_of_ne_nil (List.splitOn_ne_nil slash p)
    rw [hy] at hpart ih
    split_ifs at hpart with hc
    · rcases List.mem_cons.mp hpart with rfl | hpart
      · exact List.not_mem_nil
      · exact ih hpart
    · rw [List.modifyHead_cons] at hpart
      rcases List.mem_cons.mp hpart with rfl | hpart
      · have hno := ih List.mem_cons_self
        exact fun hmem => (List.mem_cons.mp hmem).elim (fun h => hc (by simp [h])) hno
      · exact ih (List.mem_cons_of_mem _ hpart)

theorem tokens_eq_components {path : Str} (hlen : ∀ x ∈ components path, x.length ≤ 255) :
    tokens path = components path := by
  have hnone : (path.splitOn slash).modifyHead (fun x => [] ++ x) = path.splitOn slash :=
    List.modifyHead_id ▸ rfl
  have hscan := @scan_eq_split [] path
  rw [hnone] at hscan
  apply hscan
  intro x hx
  by_cases hne : x = []
  · rw [hne]
    exact Nat.zero_le _
  · exact hlen x (List.mem_filter.mpr ⟨hx, by simpa using hne⟩)

/-! ## The loop is the fold -/

theorem resolveLoop_fold {rounds : ℕ} {current : Option ν} {s : σ} {p : Str}
    (hrounds : p.length ≤ rounds) :
    resolveLoop ops rounds current s p =
      finish ((tokens p).foldlM (stepInto ops) (current, s)) := by
  refine rounds_induction (motive := fun rounds p => ∀ (current : Option ν) (s : σ),
    resolveLoop ops rounds current s p = finish ((tokens p).foldlM (stepInto ops) (current, s)))
    ?_ ?_ ?_ hrounds current s
  · intro rounds current s
    cases rounds <;> rfl
  · intro rounds c p hempty hrest htokens ih current s
    rw [resolveLoop.eq_def]
    dsimp only
    rw [if_pos hempty, hrest, htokens]
    exact ih current s
  · intro rounds c p hempty htokens ih current s
    rw [resolveLoop.eq_def]
    dsimp only
    rw [if_neg hempty, htokens, List.foldlM_cons]
    cases current with
    | none => rfl
    | some current =>
      rw [stepInto]
      dsimp only
      cases ops.finddir s current with
      | none => rfl
      | some find =>
        dsimp only
        obtain ⟨next, s'⟩ := find (takeComponent 255 (c :: p)).1
        cases next with
        | none => rfl
        | some next => exact ih _ s'

theorem vfsResolvePath_tokens (gVfsRoot : Option ν) (s : σ) {path : Str}
    (habs : path.head? = some slash) :
    vfsResolvePath ops gVfsRoot s path = foldPath ops gVfsRoot s (tokens path) := by
  cases path with
  | nil => cases habs
  | cons c p =>
    obtain rfl : c = slash := Option.some.inj habs
    have htokens : tokens (slash :: p) = tokens p := tokens_append_slash [] p
    rw [htokens]
    cases gVfsRoot with
    | none => rfl
    | some root =>
      unfold vfsResolvePath
      dsimp only
      rw [if_neg (not_not.mpr rfl)]
      by_cases hp : p = []
      · rw [if_pos hp, hp]
        rfl
      · rw [if_neg hp]
        exact resolveLoop_fold ops le_rfl

/-- Absolute paths with the same components, none of them cut, lead to the same result, which is
the fold over these. -/
theorem vfsResolvePath_fold (gVfsRoot : Option ν) (s : σ) {path path' : Str}
    (habs : path.head? = some slash) (habs' : path'.head? = some slash)
    (hsame : components path = components path') (hlen : ∀ x ∈ components path, x.length ≤ 255) :
    vfsResolvePath ops gVfsRoot s path = foldPath ops gVfsRoot s (components path) ∧
      vfsResolvePath ops gVfsRoot s path' = vfsResolvePath ops gVfsRoot s path := by
  have hlen' : ∀ x ∈ components path', x.length ≤ 255 := hsame ▸ hlen
  have hfold := vfsResolvePath_tokens ops gVfsRoot s habs
  have hfold' := vfsResolvePath_tokens ops gVfsRoot s habs'
  rw [tokens_eq_components hlen] at hfold
  rw [tokens_eq_components hlen', ← hsame] at hfold'
  exact ⟨hfold, hfold'.trans hfold.symm⟩

end Rhoudveine.Fs.Lookup

/-! ## The file systems of the kernel -/

namespace Rhoudveine.Fs
open Lookup

def Resolved.ofOutcome {σ : Type} : Outcome σ ℕ → Resolved
  | .returned p _ => .ofPointer p
  | .crash => .crash

/-- The nodes of ramfs. -/
def nodeOps (s : Vfs) : NodeOps Unit ℕ where
  finddir _ n := (s.ramfsNodePool n).ops.map fun _ name => (ramfsFinddir s n name, ())
  mountRoot _ n :=
    if (s.ramfsNodePool n).flags &&& vfsMountpoint ≠ 0 then
      (s.ramfsNodePool n).mount.map fun mp => (s.gMounts mp).root
    else none

theorem followMount_eq (s : Vfs) (next : ℕ) :
    Lookup.followMount (nodeOps s) () next = followMount s next := by
  unfold Lookup.followMount nodeOps followMount
  dsimp only
  split
  · cases (s.ramfsNodePool next).mount <;> rfl
  · rfl

theorem resolveLoop_eq (s : Vfs) (rounds : ℕ) (current : Option ℕ) (p : Str) :
    resolveLoop s rounds current p =
      .ofOutcome (Lookup.resolveLoop (nodeOps s) rounds current () p) := by
  induction rounds generalizing current p with
  | zero => cases p <;> rfl
  | succ rounds ih =>
    cases p with
    | nil => rfl
    | cons c p =>
      by_cases hempty : (takeComponent 255 (c :: p)).1 = []
      · rw [resolveLoop_empty _ _ _ hempty, Lookup.resolveLoop.eq_def]
        dsimp only
        rw [if_pos hempty]
        exact ih _ _
      · rw [Lookup.resolveLoop.eq_def]
        dsimp only
        rw [if_neg hempty]
        cases current with
        | none => exact resolveLoop_null _ _ hempty
        | some current =>
          rw [resolveLoop_component _ _ _ hempty]
          dsimp only [nodeOps]
          cases (s.ramfsNodePool current).ops with
          | none => rfl
          | some kind =>
            cases kind
            dsimp only [Option.map_some]
            cases ramfsFinddir s current (takeComponent 255 (c :: p)).1 with
            | none => rfl
            | some next =>
              dsimp only
              rw [← followMount_eq]
              exact ih _ _

theorem vfsResolvePath_eq (s : Vfs) (path : Str) :
    vfsResolvePath s path =
      .ofOutcome (Lookup.vfsResolvePath (nodeOps s) s.gVfsRoot () path) := by
  unfold vfsResolvePath Lookup.vfsResolvePath
  cases s.gVfsRoot with
  | none => rfl
  | some root =>
    cases path with
    | nil => rfl
    | cons c p =>
      dsimp only
      by_cases hc : c ≠ slash
      · rw [if_pos hc, if_pos hc]
        rfl
      · rw [if_neg hc, if_neg hc]
        by_cases hp : p = []
        · rw [if_pos hp, if_pos hp]
          rfl
        · rw [if_neg hp, if_neg hp]
          exact resolveLoop_eq s _ _ p

namespace Joint

variable {δ υ γ : Type} (fat : Fat32Ops δ υ γ)

def Resolved.ofOutcome {σ : Type} : Outcome σ (NodePtr γ) → Resolved γ
  | .returned p _ => .ofPointer p
  | .crash => .crash

/-- The nodes of every file system. -/
def nodeOps (s : State δ υ γ) : NodeOps Unit (NodePtr γ) where
  finddir _ n := (finddir fat s n).map fun find name => (find name, ())
  mountRoot
    | _, .ramfs n =>
      if (s.ramfs.ramfsNodePool n).flags &&& vfsMountpoint ≠ 0 then
        (s.ramfs.ramfsNodePool n).mount.map fun mp => (s.gMounts mp).root
      else none
    | _, _ => none

theorem followMount_eq (s : State δ υ γ) (next : NodePtr γ) :
    Lookup.followMount (nodeOps fat s) () next = followMount s next := by
  cases next with
  | ramfs n =>
    unfold Lookup.followMount nodeOps followMount
    dsimp only
    split
    · cases (s.ramfs.ramfsNodePool n).mount <;> rfl
    · rfl
  | devfs child => rfl
  | procfs child => rfl
  | fat32 volume node => rfl

theorem resolveLoop_eq (s : State δ υ γ) (rounds : ℕ) (current : Option (NodePtr γ)) (p : Str) :
    resolveLoop fat s rounds current p =
      .ofOutcome (Lookup.resolveLoop (nodeOps fat s) rounds current () p) := by
  induction rounds generalizing current p with
  | zero => cases p <;> rfl
  | succ rounds ih =>
    cases p with
    | nil => rfl
    | cons c p =>
      rw [Lookup.resolveLoop.eq_def, resolveLoop.eq_def]
      dsimp only
      by_cases hempty : (takeComponent 255 (c :: p)).1 = []
      · rw [if_pos hempty, if_pos hempty]
        exact ih _ _
      · rw [if_neg hempty, if_neg hempty]
        cases current with
        | none => rfl
        | some current =>
          dsimp only [nodeOps]
          cases finddir fat s current with
          | none => rfl
          | some find =>
            dsimp only [Option.map_some]
            cases find (takeComponent 255 (c :: p)).1 with
            | none => rfl
            | some next =>
              dsimp only
              rw [← followMount_eq fat]
              exact ih _ _

theorem vfsResolvePath_eq (s : State δ υ γ) (path : Str) :
    vfsResolvePath fat s path =
      .ofOutcome (Lookup.vfsResolvePath (nodeOps fat s) s.gVfsRoot () path) := by
  unfold vfsResolvePath Lookup.vfsResolvePath
  cases s.gVfsRoot with
  | none => rfl
  | some root =>
    cases path with
    | nil => rfl
    | cons c p =>
      dsimp only
      by_cases hc : c ≠ slash
      · rw [if_pos hc, if_pos hc]
        rfl
      · rw [if_neg hc, if_neg hc]
        by_cases hp : p = []
        · rw [if_pos hp, if_pos hp]
          rfl
        · rw [if_neg hp, if_neg hp]
          exact resolveLoop_eq fat s _ _ p

end Joint

/-- A path to `/etc` with more slashes. -/
theorem vfsResolvePath_fold_etc :
    Lookup.vfsResolvePath (nodeOps withEtc) withEtc.gVfsRoot () (str "//etc/") =
      Lookup.vfsResolvePath (nodeOps withEtc) withEtc.gVfsRoot () (str "/etc") :=
  have hsame : components (str "/etc") = components (str "//etc/") := by decide
  (vfsResolvePath_fold (nodeOps withEtc) withEtc.gVfsRoot () rfl rfl hsame (by decide)).2

end Rhoudveine.Fs
