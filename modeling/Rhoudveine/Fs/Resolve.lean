import Rhoudveine.Fs.Tree

/-!
# Path resolution

Where the result of `vfs_resolve_path` can come from, and which changes of the state
it does not notice.
-/

namespace Rhoudveine.Fs

/-- A slash with nothing before it is skipped. -/
theorem resolveLoop_empty (s : Vfs) (rounds : ℕ) (current : Option ℕ) {c : UInt8} {p : Str}
    (h : (takeComponent 255 (c :: p)).1 = []) :
    resolveLoop s (rounds + 1) current (c :: p) =
      resolveLoop s rounds current (skipSlash (takeComponent 255 (c :: p)).2) := by
  rw [resolveLoop.eq_def]
  simp only [if_pos h]

/-- A component is looked up in the current directory. -/
theorem resolveLoop_component (s : Vfs) (rounds cur : ℕ) {c : UInt8} {p : Str}
    (h : (takeComponent 255 (c :: p)).1 ≠ []) :
    resolveLoop s (rounds + 1) (some cur) (c :: p) =
      match (s.ramfsNodePool cur).ops with
      | none => .null
      | some .ramfs =>
        match ramfsFinddir s cur (takeComponent 255 (c :: p)).1 with
        | none => .null
        | some next =>
          resolveLoop s rounds (followMount s next) (skipSlash (takeComponent 255 (c :: p)).2) := by
  have hstep := resolveLoop.eq_def s (rounds + 1) (some cur) (c :: p)
  simp only [if_neg h] at hstep
  exact hstep

theorem resolveLoop_null (s : Vfs) (rounds : ℕ) {c : UInt8} {p : Str}
    (h : (takeComponent 255 (c :: p)).1 ≠ []) :
    resolveLoop s (rounds + 1) none (c :: p) = .crash := by
  rw [resolveLoop.eq_def]
  simp only [if_neg h]

/-- The result of a lookup is where it started, or what some node is followed to. -/
theorem resolveLoop_node {s : Vfs} {rounds : ℕ} {current : Option ℕ} {p : Str} {n : ℕ}
    (h : resolveLoop s rounds current p = .node n) :
    current = some n ∨ ∃ m, followMount s m = some n := by
  induction rounds generalizing current p with
  | zero =>
    cases p with
    | nil => cases current <;> simp_all [resolveLoop, Resolved.ofPointer]
    | cons c p => simp [resolveLoop] at h
  | succ rounds ih =>
    cases p with
    | nil => cases current <;> simp_all [resolveLoop, Resolved.ofPointer]
    | cons c p =>
      by_cases hempty : (takeComponent 255 (c :: p)).1 = []
      · rw [resolveLoop_empty _ _ _ hempty] at h
        exact ih h
      · cases current with
        | none =>
          rw [resolveLoop_null _ _ hempty] at h
          cases h
        | some cur =>
          rw [resolveLoop_component _ _ _ hempty] at h
          cases hops : (s.ramfsNodePool cur).ops with
          | none => simp [hops] at h
          | some kind =>
            cases kind
            simp only [hops] at h
            cases hfind : ramfsFinddir s cur (takeComponent 255 (c :: p)).1 with
            | none => simp [hfind] at h
            | some next =>
              simp only [hfind] at h
              rcases ih h with heq | hm
              · exact Or.inr ⟨next, heq⟩
              · exact Or.inr hm

theorem vfsResolvePath_node {s : Vfs} {path : Str} {n : ℕ} (h : vfsResolvePath s path = .node n) :
    s.gVfsRoot = some n ∨ ∃ m, followMount s m = some n := by
  unfold vfsResolvePath at h
  cases hroot : s.gVfsRoot with
  | none => simp [hroot] at h
  | some root =>
    cases path with
    | nil => simp [hroot] at h
    | cons c p =>
      simp only [hroot] at h
      by_cases hc : c ≠ slash
      · simp [hc] at h
      · rw [if_neg hc] at h
        by_cases hp : p = []
        · rw [if_pos hp] at h
          exact Or.inl (by rw [Resolved.node.inj h])
        · rw [if_neg hp] at h
          exact resolveLoop_node h

/-- Without a root file system every path is unresolved. -/
theorem vfsResolvePath_of_no_root {s : Vfs} (h : s.gVfsRoot = none) (path : Str) :
    vfsResolvePath s path = .null := by
  simp [vfsResolvePath, h]

theorem vfsResolvePath_slash {s : Vfs} {r : ℕ} (h : s.gVfsRoot = some r) :
    vfsResolvePath s [slash] = .node r := by
  simp [vfsResolvePath, h]

/-! ## Shaped states -/

/-- In a shaped state lookups stay among the allocated nodes. -/
theorem Shaped.resolveLoop {s : Vfs} (h : Shaped s) {rounds cur : ℕ} {p : Str}
    (hcur : cur < s.ramfsNodeCount) :
    resolveLoop s rounds (some cur) p = .null ∨
      ∃ n < s.ramfsNodeCount, resolveLoop s rounds (some cur) p = .node n := by
  induction rounds generalizing cur p with
  | zero =>
    cases p with
    | nil => exact Or.inr ⟨cur, hcur, rfl⟩
    | cons c p => exact Or.inl rfl
  | succ rounds ih =>
    cases p with
    | nil => exact Or.inr ⟨cur, hcur, rfl⟩
    | cons c p =>
      by_cases hempty : (takeComponent 255 (c :: p)).1 = []
      · rw [resolveLoop_empty _ _ _ hempty]
        exact ih hcur
      · rw [resolveLoop_component _ _ _ hempty]
        cases hops : (s.ramfsNodePool cur).ops with
        | none => exact Or.inl rfl
        | some kind =>
          cases kind
          cases hfind : ramfsFinddir s cur (takeComponent 255 (c :: p)).1 with
          | none => exact Or.inl rfl
          | some next =>
            obtain ⟨m, hm, heq⟩ := h.followMount (h.finddir_lt hcur hfind)
            simp only [heq]
            exact ih hm

theorem Shaped.resolvePath {s : Vfs} (h : Shaped s) (path : Str) :
    vfsResolvePath s path = .null ∨
      ∃ n < s.ramfsNodeCount, vfsResolvePath s path = .node n := by
  unfold vfsResolvePath
  cases hroot : s.gVfsRoot with
  | none => exact Or.inl rfl
  | some root =>
    cases path with
    | nil => exact Or.inl rfl
    | cons c p =>
      have hlt := h.root_lt root hroot
      by_cases hc : c ≠ slash
      · exact Or.inl (by simp [hc])
      · by_cases hp : p = []
        · exact Or.inr ⟨root, hlt, by simp [hc, hp]⟩
        · simp only [if_neg hc, if_neg hp]
          exact h.resolveLoop hlt

theorem Shaped.resolvePath_lt {s : Vfs} (h : Shaped s) {path : Str} {n : ℕ}
    (hres : vfsResolvePath s path = .node n) : n < s.ramfsNodeCount := by
  rcases h.resolvePath path with hnull | ⟨m, hm, heq⟩
  · rw [hnull] at hres
    cases hres
  · rw [heq] at hres
    rwa [← Resolved.node.inj hres]

/-! ## Changes a lookup does not notice -/

/-- Two states look alike from the nodes that satisfy `P`: the same operations, the same
children, and the same nodes behind these. -/
structure Alike (s s' : Vfs) (P : ℕ → Prop) : Prop where
  ops : ∀ n, P n → (s'.ramfsNodePool n).ops = (s.ramfsNodePool n).ops
  find : ∀ n name, P n → ramfsFinddir s' n name = ramfsFinddir s n name
  follow : ∀ n name c, P n → ramfsFinddir s n name = some c →
    followMount s' c = followMount s c ∧ ∀ m, followMount s c = some m → P m

theorem Alike.resolveLoop {s s' : Vfs} {P : ℕ → Prop} (h : Alike s s' P) {rounds : ℕ}
    {current : Option ℕ} {p : Str} (hcur : ∀ n, current = some n → P n) :
    resolveLoop s' rounds current p = resolveLoop s rounds current p := by
  induction rounds generalizing current p with
  | zero => cases p <;> rfl
  | succ rounds ih =>
    cases p with
    | nil => rfl
    | cons c p =>
      by_cases hempty : (takeComponent 255 (c :: p)).1 = []
      · rw [resolveLoop_empty _ _ _ hempty, resolveLoop_empty _ _ _ hempty]
        exact ih hcur
      · cases current with
        | none => rw [resolveLoop_null _ _ hempty, resolveLoop_null _ _ hempty]
        | some cur =>
          have hP := hcur cur rfl
          rw [resolveLoop_component _ _ _ hempty, resolveLoop_component _ _ _ hempty]
          simp only [h.ops cur hP, h.find cur _ hP]
          cases hops : (s.ramfsNodePool cur).ops with
          | none => rfl
          | some kind =>
            cases kind
            cases hfind : ramfsFinddir s cur (takeComponent 255 (c :: p)).1 with
            | none => rfl
            | some next =>
              obtain ⟨heq, hnext⟩ := h.follow cur _ next hP hfind
              simp only [heq]
              exact ih hnext

theorem Alike.resolvePath {s s' : Vfs} {P : ℕ → Prop} (h : Alike s s' P)
    (hroot : s'.gVfsRoot = s.gVfsRoot) (hP : ∀ r, s.gVfsRoot = some r → P r) (path : Str) :
    vfsResolvePath s' path = vfsResolvePath s path := by
  unfold vfsResolvePath
  rw [hroot]
  cases hr : s.gVfsRoot with
  | none => rfl
  | some root =>
    cases path with
    | nil => rfl
    | cons c p =>
      simp only
      rw [h.resolveLoop fun n hn => by rw [← Option.some.inj hn]; exact hP root hr]

/-- `vfs_mount` looks for its mount point after it has allocated the new root; the lookup
does not notice. -/
theorem Shaped.resolvePath_allocRoot {s : Vfs} (h : Shaped s) (path p : Str) :
    vfsResolvePath (Fs.allocRoot s path) p = vfsResolvePath s p := by
  have hold (n : ℕ) (hn : n < s.ramfsNodeCount) :
      (Fs.allocRoot s path).ramfsNodePool n = s.ramfsNodePool n :=
    addNode_old _ _ (Nat.ne_of_lt hn)
  have hfind (n : ℕ) (name : Str) (hn : n < s.ramfsNodeCount) :
      ramfsFinddir (Fs.allocRoot s path) n name = ramfsFinddir s n name := by
    have hdata (d : ℕ) (hd : (s.ramfsNodePool n).fsData = .dir d) :
        (Fs.allocRoot s path).ramfsDataPool d = s.ramfsDataPool d := by
      obtain rfl := h.own_dir n d hn hd
      exact addNode_oldDir _ _ (Nat.ne_of_lt hn)
    simp only [ramfsFinddir, hold n hn]
    cases hd : (s.ramfsNodePool n).fsData with
    | null => rfl
    | file k => rfl
    | dir d => simp only [hdata d hd]
  refine Alike.resolvePath (P := fun n => n < s.ramfsNodeCount)
    ⟨fun n hn => by rw [hold n hn], fun n name hn => hfind n name hn, ?_⟩ rfl h.root_lt p
  intro n name c hn hc
  have hlt := h.finddir_lt hn hc
  refine ⟨?_, fun m hm => ?_⟩
  · simp only [Fs.followMount, hold c hlt]
    cases hk : (s.ramfsNodePool c).mount with
    | none => rfl
    | some k =>
      have hne : k ≠ s.gMountCount := Nat.ne_of_lt (h.link_lt c k hk)
      have hentry : (Fs.allocRoot s path).gMounts k = s.gMounts k := setMount_of_ne _ _ hne
      simp only [hentry]
  · obtain ⟨m', hm', heq⟩ := h.followMount hlt
    rw [heq] at hm
    rwa [← Option.some.inj hm]

end Rhoudveine.Fs
