import Rhoudveine.Fs.AllCalls
import Rhoudveine.Fs.Components

/-!
# A failed `vfs_open`

With `O_CREAT` a missing file is made before it is looked up again and before a descriptor is
sought, and it stays if one of these fails.
-/

namespace Rhoudveine.Fs
open Search Lookup

variable {answers : ℕ → UInt64} {s s' t : Vfs} {parent root cur : ℕ} {name path : Str}

/-! ## What is to hold -/

/-- No file was made, lookups lead where they did and the descriptors are the same. -/
structure Unchanged (s s' : Vfs) : Prop where
  resolve : ∀ path, vfsResolvePath s' path = vfsResolvePath s path
  count : s'.ramfsNodeCount = s.ramfsNodeCount
  fds : s'.gFds = s.gFds

/-- `vfs_open` is asked for a missing file, whose directory has a free slot, and a node is
free. -/
structure Makes (s : Vfs) (path : Str) (flags : UInt32) : Prop where
  missing : vfsResolvePath s path = .null
  asked : flags &&& oCreat ≠ 0
  place : ∃ parent d i, vfsResolvePath s (vfsDirname path) = .node parent ∧
    (s.ramfsNodePool parent).isDir ∧ (s.ramfsNodePool parent).fsData = .dir d ∧
      i < ramfsMaxChildren ∧ (s.ramfsDataPool d).children i = none
  room : s.ramfsNodeCount < maxRamfsNodes

/-- Some descriptor from 3 on is free. -/
def FdFree (s : Vfs) : Prop := ∃ fd, 3 ≤ fd ∧ fd < maxFds ∧ (s.gFds fd).refcount = 0

theorem freeFd_eq_none : freeFd s = none ↔ ¬ FdFree s := by
  have hmax : maxFds = 256 := rfl
  rw [freeFd, firstSome_eq_none]
  constructor
  · rintro h ⟨fd, hge, hlt, hfree⟩
    have hnone := h fd hge (by omega)
    rw [if_pos hfree] at hnone
    cases hnone
  · intro h fd hge hlt
    rw [if_neg fun hfree => h ⟨fd, hge, by omega, hfree⟩]

/-! ## Making the file -/

/-- `ramfs_create` succeeds where there is a slot and a node. -/
theorem ramfsCreate_of_room {d i : ℕ} {flags : UInt32} (hdir : (s.ramfsNodePool parent).isDir)
    (hdata : (s.ramfsNodePool parent).fsData = .dir d) (hi : i < ramfsMaxChildren)
    (hfree : (s.ramfsDataPool d).children i = none) (hroom : s.ramfsNodeCount < maxRamfsNodes) :
    ∃ t, ramfsCreate s parent name flags = (0, t) := by
  unfold ramfsCreate
  simp only [not_not.mpr hdir, if_false, hdata]
  cases hslot : firstSome (fun i => if (s.ramfsDataPool d).children i = none then some i else none)
      ramfsMaxChildren 0 with
  | none =>
    have hnone := firstSome_eq_none.mp hslot i (Nat.zero_le i) (by omega)
    rw [if_pos hfree] at hnone
    cases hnone
  | some slot =>
    simp only [ramfsAllocNode, if_neg (Nat.not_le.mpr hroom)]
    exact ⟨_, rfl⟩

theorem Makes.created {flags : UInt32} (h : Makes s path flags)
    (hops : ∀ n, (s.ramfsNodePool n).isDir → (s.ramfsNodePool n).ops = some .ramfs) :
    ∃ t, vfsCreate s path = some (0, t) := by
  obtain ⟨parent, d, i, hres, hdir, hdata, hi, hfree⟩ := h.place
  have hmade : ∃ t, ramfsCreate s parent (vfsBasename path) vfsFile = (0, t) :=
    ramfsCreate_of_room hdir hdata hi hfree h.room
  obtain ⟨t, ht⟩ := hmade
  refine ⟨t, ?_⟩
  unfold vfsCreate createAt
  simp only [hres, hops parent hdir, ht]

theorem makes_of_created {flags : UInt32} (hmissing : vfsResolvePath s path = .null)
    (hasked : flags &&& oCreat ≠ 0) (hres : vfsResolvePath s (vfsDirname path) = .node parent)
    (hc : Created s parent name vfsFile t) : Makes s path flags := by
  obtain ⟨hdir, hdata, hfree, -, hslot, hroom⟩ := hc
  exact ⟨hmissing, hasked, ⟨parent, _, _, hres, hdir, hdata, hslot, hfree⟩, hroom⟩

/-! ## Lookups as folds -/

/-- Where the components lead from `cur`. -/
def follow (s : Vfs) (cur : Option ℕ) (xs : List Str) : Except (Outcome Unit ℕ) (Option ℕ × Unit) :=
  xs.foldlM (stepInto (nodeOps s)) (cur, ())

theorem follow_cons (s : Vfs) (cur : Option ℕ) (x : Str) (xs : List Str) :
    follow s cur (x :: xs) = stepInto (nodeOps s) (cur, ()) x >>= fun p => follow s p.1 xs :=
  List.foldlM_cons

theorem follow_append (s : Vfs) (cur : Option ℕ) (xs ys : List Str) :
    follow s cur (xs ++ ys) = follow s cur xs >>= fun p => follow s p.1 ys :=
  List.foldlM_append

theorem resolve_follow (hroot : s.gVfsRoot = some root) (habs : path.head? = some slash) :
    vfsResolvePath s path = .ofOutcome (finish (follow s (some root) (tokens path))) := by
  rw [vfsResolvePath_eq, vfsResolvePath_tokens _ _ _ habs, hroot]
  rfl

theorem ofOutcome_eq_node {e : Except (Outcome Unit ℕ) (Option ℕ × Unit)} {n : ℕ} :
    Resolved.ofOutcome (finish e) = .node n ↔
      e = .ok (some n, ()) ∨ e = .error (.returned (some n) ()) := by
  rcases e with out | ⟨p, u⟩
  · cases out with
    | crash => simp [finish, Resolved.ofOutcome]
    | returned p u => cases p <;> simp [finish, Resolved.ofOutcome, Resolved.ofPointer]
  · cases p <;> simp [finish, Resolved.ofOutcome, Resolved.ofPointer]

namespace Grounded

/-- One lookup in a node of the pool. -/
theorem stepInto_some (h : Grounded s) (hcur : cur < s.ramfsNodeCount) (x : Str) :
    stepInto (nodeOps s) (some cur, ()) x =
      (ramfsFinddir s cur x).elim (.error (.returned none ()))
        fun c => .ok (followMount s c, ()) := by
  unfold stepInto
  dsimp only [nodeOps]
  rw [h.ops cur hcur]
  dsimp only [Option.map_some]
  cases ramfsFinddir s cur x with
  | none => rfl
  | some c =>
    dsimp only [Option.elim_some]
    rw [← followMount_eq]
    rfl

theorem followMount_lt (h : Grounded s) {c m : ℕ} (hc : c < s.ramfsNodeCount)
    (hm : followMount s c = some m) : m < s.ramfsNodeCount := by
  rcases followMount_cases s c with ⟨heq, -⟩ | ⟨k, -, heq⟩
  · rw [heq] at hm
    rwa [← Option.some.inj hm]
  · exact h.entry_lt k m (heq.symm.trans hm)

/-- What is looked up successfully is a stored name. -/
theorem follow_names (h : Grounded s) {xs : List Str} {p : Option ℕ}
    (hcur : cur < s.ramfsNodeCount) (hf : follow s (some cur) xs = .ok (p, ())) {x : Str}
    (hx : x ∈ xs) : x.length ≤ 31 := by
  induction xs generalizing cur with
  | nil => cases hx
  | cons y xs ih =>
    rw [follow_cons, h.stepInto_some hcur] at hf
    cases hc : ramfsFinddir s cur y with
    | none =>
      rw [hc] at hf
      cases hf
    | some c =>
      rw [hc] at hf
      have hrest : follow s (followMount s c) xs = .ok (p, ()) := hf
      rcases List.mem_cons.mp hx with rfl | hx
      · obtain ⟨roots, hforest⟩ := h.forest
        obtain ⟨-, i, hi, hname⟩ := hforest.finddir_slot hc
        rw [← hname]
        exact h.name_le cur i (by simp [hi])
      · cases hm : followMount s c with
        | none =>
          -- a null pointer with a component left is a crash
          rw [hm] at hrest
          cases xs with
          | nil => cases hx
          | cons z xs => cases hrest
        | some m =>
          rw [hm] at hrest
          exact ih (h.followMount_lt (h.child_lt hc) hm) hrest hx

/-- A lookup that ends early returns no node. -/
theorem follow_not_returned (h : Grounded s) {xs : List Str} {n : ℕ}
    (hcur : cur < s.ramfsNodeCount) :
    follow s (some cur) xs ≠ .error (.returned (some n) ()) := by
  induction xs generalizing cur with
  | nil => intro hf; cases hf
  | cons x xs ih =>
    rw [follow_cons, h.stepInto_some hcur]
    cases hc : ramfsFinddir s cur x with
    | none => intro hf; cases hf
    | some c =>
      change follow s (followMount s c) xs ≠ _
      cases hm : followMount s c with
      | none =>
        cases xs with
        | nil => intro hf; cases hf
        | cons y xs => intro hf; cases hf
      | some m => exact ih (h.followMount_lt (h.child_lt hc) hm)

/-! ## The new file in the way of lookups -/

theorem stepInto_old (h : Grounded s) (hc : Created s parent name vfsFile t)
    (hcur : cur < s.ramfsNodeCount) {x : Str}
    (hold : ¬ (cur = parent ∧ ramfsFinddir s parent x = none ∧ x = name.take 31)) :
    stepInto (nodeOps t) (some cur, ()) x = stepInto (nodeOps s) (some cur, ()) x := by
  obtain ⟨roots, hforest⟩ := h.forest
  have hcur' : cur < t.ramfsNodeCount := by
    obtain ⟨-, -, -, -, -, -⟩ := hc
    exact hcur.trans (Nat.lt_succ_self _)
  have hfind : ramfsFinddir t cur x = ramfsFinddir s cur x := by
    by_cases hp : cur = parent
    · subst hp
      rw [hforest.finddir_created hc]
      cases hf : ramfsFinddir s cur x with
      | some c => rfl
      | none =>
        rw [if_neg fun hx => hold ⟨rfl, hf, hx⟩]
        rfl
    · exact hforest.finddir_created_of_ne hc hcur hp x
  rw [(h.created hc).stepInto_some hcur', h.stepInto_some hcur, hfind]
  cases hf : ramfsFinddir s cur x with
  | none => rfl
  | some c =>
    dsimp only [Option.elim_some]
    rw [followMount_created hc (h.child_lt hf)]

theorem stepInto_made (h : Grounded s) (hc : Created s parent name vfsFile t)
    (hnone : ramfsFinddir s parent (name.take 31) = none) :
    stepInto (nodeOps t) (some parent, ()) (name.take 31) = .ok (some s.ramfsNodeCount, ()) := by
  obtain ⟨roots, hforest⟩ := h.forest
  have hparent : parent < t.ramfsNodeCount := by
    obtain ⟨hdir, -, -, -, -, -⟩ := hc
    exact (hforest.dir_data parent hdir).1.trans (Nat.lt_succ_self _)
  rw [(h.created hc).stepInto_some hparent, hforest.finddir_created hc, hnone, if_pos rfl]
  dsimp only [Option.none_or, Option.elim_some]
  rw [followMount_new hc]

/-- The new file is no directory. -/
theorem follow_new (h : Grounded s) (hc : Created s parent name vfsFile t) (x : Str)
    (xs : List Str) : follow t (some s.ramfsNodeCount) (x :: xs) = .error (.returned none ()) := by
  have hnone : ramfsFinddir t s.ramfsNodeCount x = none ∧ s.ramfsNodeCount < t.ramfsNodeCount := by
    obtain ⟨-, -, -, -, -, -⟩ := hc
    refine ⟨?_, Nat.lt_succ_self _⟩
    unfold ramfsFinddir
    dsimp only
    have hfile : ¬ (newNode s name vfsFile).isDir := by
      have hflags : ¬ vfsFile &&& vfsDirectory ≠ 0 := by decide
      exact hflags
    rw [enterChild_new, if_pos hfile]
  rw [follow_cons, (h.created hc).stepInto_some hnone.2, hnone.1]
  rfl

/-- Lookups after the call lead where they did, unless they meet the new file. -/
theorem follow_created (h : Grounded s) (hc : Created s parent name vfsFile t)
    (hcur : cur < s.ramfsNodeCount) (xs : List Str) :
    follow t (some cur) xs = follow s (some cur) xs ∨
      ∃ ys zs, xs = ys ++ name.take 31 :: zs ∧ follow s (some cur) ys = .ok (some parent, ()) ∧
        ramfsFinddir s parent (name.take 31) = none ∧
        follow t (some cur) xs = follow t (some s.ramfsNodeCount) zs := by
  induction xs generalizing cur with
  | nil => exact Or.inl rfl
  | cons x xs ih =>
    by_cases hnew : cur = parent ∧ ramfsFinddir s parent x = none ∧ x = name.take 31
    · obtain ⟨rfl, hnone, rfl⟩ := hnew
      refine Or.inr ⟨[], xs, rfl, rfl, hnone, ?_⟩
      rw [follow_cons, h.stepInto_made hc hnone]
      rfl
    · rw [follow_cons, follow_cons, h.stepInto_old hc hcur hnew, h.stepInto_some hcur]
      cases hf : ramfsFinddir s cur x with
      | none => exact Or.inl rfl
      | some c =>
        change follow t (followMount s c) xs = follow s (followMount s c) xs ∨ _
        cases hm : followMount s c with
        | none =>
          -- both crash at the next component
          cases xs with
          | nil => exact Or.inl rfl
          | cons y xs => exact Or.inl rfl
        | some m =>
          rcases ih (h.followMount_lt (h.child_lt hf) hm) with heq | ⟨ys, zs, rfl, hys, hnone, heq⟩
          · exact Or.inl heq
          · refine Or.inr ⟨x :: ys, zs, rfl, ?_, hnone, ?_⟩
            · rw [follow_cons, h.stepInto_some hcur, hf]
              change follow s (followMount s c) ys = _
              rw [hm, hys]
            · change follow t (followMount s c) _ = _
              rw [hm, heq]

/-- A missing path leads to the new file exactly when its last component is the stored name and
the others lead to the directory. -/
theorem resolve_created (h : Grounded s) (hc : Created s parent name vfsFile t)
    (hroot : s.gVfsRoot = some root) (habs : path.head? = some slash)
    (hnull : vfsResolvePath s path = .null) :
    vfsResolvePath t path = .null ∨ vfsResolvePath t path = .node s.ramfsNodeCount ∧
      ∃ ys, tokens path = ys ++ [name.take 31] ∧ follow s (some root) ys = .ok (some parent, ()) ∧
        ramfsFinddir s parent (name.take 31) = none := by
  have hroot' : t.gVfsRoot = some root := by
    obtain ⟨-, -, -, -, -, -⟩ := hc
    exact hroot
  rw [resolve_follow hroot habs] at hnull
  rw [resolve_follow hroot' habs]
  rcases h.follow_created hc (h.root_lt root hroot) (tokens path) with
    heq | ⟨ys, zs, htokens, hys, hnone, heq⟩
  · rw [heq]
    exact Or.inl hnull
  · rw [heq]
    cases zs with
    | nil => exact Or.inr ⟨rfl, ys, htokens, hys, hnone⟩
    | cons z zs =>
      rw [h.follow_new hc]
      exact Or.inl rfl

theorem resolve_made (h : Grounded s) (hc : Created s parent name vfsFile t)
    (hroot : s.gVfsRoot = some root) (habs : path.head? = some slash) {ys : List Str}
    (htokens : tokens path = ys ++ [name.take 31])
    (hys : follow s (some root) ys = .ok (some parent, ()))
    (hnone : ramfsFinddir s parent (name.take 31) = none) :
    vfsResolvePath t path = .node s.ramfsNodeCount := by
  obtain ⟨roots, hforest⟩ := h.forest
  have hroot' : t.gVfsRoot = some root := by
    obtain ⟨-, -, -, -, -, -⟩ := hc
    exact hroot
  have hys' : follow t (some root) ys = .ok (some parent, ()) := by
    rcases h.follow_created hc (h.root_lt root hroot) ys with heq | ⟨us, vs, rfl, hus, -, -⟩
    · rw [heq, hys]
    · -- before the call no file was there to go on from
      have hparent : parent < s.ramfsNodeCount := by
        obtain ⟨hdir, -, -, -, -, -⟩ := hc
        exact (hforest.dir_data parent hdir).1
      rw [follow_append, hus] at hys
      change follow s (some parent) (name.take 31 :: vs) = _ at hys
      rw [follow_cons, h.stepInto_some hparent, hnone] at hys
      cases hys
  rw [resolve_follow hroot' habs, htokens, follow_append, hys']
  change Resolved.ofOutcome (finish (follow t (some parent) [name.take 31])) = _
  rw [follow_cons, h.stepInto_made hc hnone]
  rfl

/-- In terms of the path: it is split where its last component begins. -/
theorem splits_iff (h : Grounded s) (hroot : s.gVfsRoot = some root) {pre x : Str}
    (hx : slash ∉ x) (habs : (pre ++ slash :: x).head? = some slash)
    (hres : vfsResolvePath s (vfsDirname (pre ++ slash :: x)) = .node parent) :
    Splits s (pre ++ slash :: x) ↔
      ∃ ys, tokens (pre ++ slash :: x) = ys ++ [x.take 31] ∧
        follow s (some root) ys = .ok (some parent, ()) ∧
        ramfsFinddir s parent (x.take 31) = none := by
  have htokens := tokens_append_slash pre x
  have hwhole : vfsResolvePath s (wholeDirname (pre ++ slash :: x)) =
      .ofOutcome (finish (follow s (some root) (tokens pre))) := by
    rw [wholeDirname_append hx]
    split
    · rename_i hpre
      rw [hpre, vfsResolvePath_slash hroot]
      rfl
    · rename_i hpre
      apply resolve_follow hroot
      cases pre with
      | nil => exact absurd rfl hpre
      | cons c pre => exact habs
  constructor
  · rintro ⟨hne, hle, hnew, heq⟩
    rw [vfsBasename_append hx] at hne hle hnew
    have hstored : x.take 31 = x := List.take_of_length_le hle
    rw [hwhole, hres, ofOutcome_eq_node] at heq
    refine ⟨tokens pre, ?_, ?_, ?_⟩
    · rw [htokens, tokens_of_short hx hne (hle.trans (by norm_num)), hstored]
    · rcases heq with heq | herr
      · exact heq
      · exact absurd herr (h.follow_not_returned (h.root_lt root hroot))
    · rw [hstored]
      exact hnew parent hres
  · rintro ⟨ys, hsplit, hys, hnone⟩
    have hshort (y : Str) (hy : y ∈ tokens (pre ++ slash :: x)) : y.length ≤ 31 := by
      rw [hsplit] at hy
      rcases List.mem_append.mp hy with hy | hy
      · exact h.follow_names (h.root_lt root hroot) hys hy
      · rw [List.mem_singleton.mp hy]
        exact List.length_take_le _ _
    have hxlen : x.length ≤ 255 := by
      by_contra hlong
      have hmem := mem_tokens_of_long hx (Nat.lt_of_not_le hlong)
      have hle := hshort _ (htokens ▸ List.mem_append_right _ hmem)
      rw [List.length_take] at hle
      omega
    have hne : x ≠ [] := by
      rintro rfl
      -- the last component is not empty, but the stored name is
      have hlast : [] ∈ tokens (pre ++ slash :: []) := by
        rw [hsplit]
        exact List.mem_append_right _ (List.mem_singleton_self _)
      exact (scan_token List.not_mem_nil (Nat.zero_le _) hlast).nonempty rfl
    have hone := tokens_of_short hx hne hxlen
    rw [htokens, hone] at hsplit
    obtain ⟨rfl, hlast⟩ := List.append_inj' hsplit rfl
    have hstored : x = x.take 31 := List.singleton_inj.mp hlast
    rw [← hstored] at hnone
    exact {
      named := by rwa [vfsBasename_append hx]
      name_le := by
        rw [vfsBasename_append hx, hstored]
        exact List.length_take_le _ _
      new := fun p hp => by
        obtain rfl := Resolved.node.inj (hres.symm.trans hp)
        rwa [vfsBasename_append hx]
      whole := by
        rw [hwhole, hys, hres]
        rfl }

end Grounded

/-- A path whose directory part leads somewhere is absolute. -/
theorem absolute_of_dirname (hres : vfsResolvePath s (vfsDirname path) = .node parent) :
    path.head? = some slash := by
  have hhead : (vfsDirname path).head? = some slash := by
    unfold vfsResolvePath at hres
    split at hres
    · cases hres
    · cases hres
    · rename_i heq
      rw [heq]
      split at hres
      · cases hres
      · rename_i hc
        rw [List.head?_cons, not_not.mp hc]
  unfold vfsDirname at hhead
  split at hhead
  · exact absurd hhead (by decide)
  · rename_i i _
    dsimp only at hhead
    have hpos : (if (if i = 0 then 1 else i) ≥ 256 then 255 else if i = 0 then 1 else i) ≠ 0 := by
      split
      · decide
      · split
        · decide
        · assumption
    rwa [List.head?_take, if_neg hpos] at hhead

/-- The file that `vfs_open` makes is found again exactly when the path splits. -/
theorem Grounded.reopened_iff (h : Grounded s) (hnull : vfsResolvePath s path = .null)
    (hmade : vfsCreate s path = some (0, t)) :
    ((vfsResolvePath t path = .null ∧ ¬ Splits s path) ∨
      ∃ node, vfsResolvePath t path = .node node ∧ Splits s path) ∧
      t.ramfsNodeCount = s.ramfsNodeCount + 1 ∧ t.gFds = s.gFds := by
  rcases createAt_cases (fun _ _ _ => rfl) hmade with ⟨hr, -⟩ | ⟨-, parent, hres, hc⟩
  · cases hr
  have habs := absolute_of_dirname hres
  obtain ⟨root, hroot⟩ : ∃ root, s.gVfsRoot = some root := by
    by_contra hnone
    rw [← Option.ne_none_iff_exists', not_not] at hnone
    rw [vfsResolvePath_of_no_root hnone] at hres
    cases hres
  obtain ⟨pre, x, rfl, hx⟩ := split_lastSlash (List.mem_of_mem_head? habs)
  rw [vfsBasename_append hx] at hc
  have hsplits := h.splits_iff hroot hx habs hres
  refine ⟨?_, ?_⟩
  · rcases h.resolve_created hc hroot habs hnull with hnull' | ⟨hnode, hends⟩
    · refine Or.inl ⟨hnull', fun hs => ?_⟩
      obtain ⟨ys, htokens, hys, hnone⟩ := hsplits.mp hs
      have hnode := h.resolve_made hc hroot habs htokens hys hnone
      rw [hnull'] at hnode
      cases hnode
    · exact Or.inr ⟨_, hnode, hsplits.mpr hends⟩
  · obtain ⟨-, -, -, -, -, -⟩ := hc
    exact ⟨rfl, rfl⟩

/-- In every state that calls reach, a `vfs_open` that fails changes nothing exactly when it makes
no file, or makes one that is found again and has a descriptor for it. -/
theorem vfsOpen_fails_unchanged_iff {frames : UInt64 → ℕ → UInt8} {calls : List AnyCall}
    (hrun : Run (anyStep answers) (vfsInit frames) calls s) {flags : UInt32} {r : ℤ}
    (hopen : vfsOpen s path flags = some (r, s')) :
    (r = -1 → Unchanged s s') ↔ (Makes s path flags → Splits s path ∧ FdFree s) := by
  have h := Grounded.run hrun
  have hops (n : ℕ) (hn : (s.ramfsNodePool n).isDir) : (s.ramfsNodePool n).ops = some .ramfs := by
    obtain ⟨roots, hforest⟩ := h.forest
    exact h.ops n (hforest.dir_data n hn).1
  have hfd {t : Vfs} (hfds : t.gFds = s.gFds) : FdFree t ↔ FdFree s := by
    unfold FdFree
    rw [hfds]
  by_cases hmakes : Makes s path flags
  · obtain ⟨t, hmade⟩ := hmakes.created hops
    obtain ⟨hagain, hcount, hfds⟩ := h.reopened_iff hmakes.missing hmade
    have hstays (hs' : s'.ramfsNodeCount = t.ramfsNodeCount) : ¬ Unchanged s s' := by
      intro hsame
      have heq := hsame.count
      omega
    simp only [vfsOpen, hmakes.missing, if_neg hmakes.asked, hmade, ne_eq, not_true_eq_false,
      if_false] at hopen
    rcases hagain with ⟨hnull, hno⟩ | ⟨node, hnode, hyes⟩
    · -- the file is not found again
      simp only [hnull, Option.some.injEq, Prod.mk.injEq] at hopen
      obtain ⟨rfl, rfl⟩ := hopen
      exact iff_of_false (fun hsame => hstays rfl (hsame rfl)) fun hok => hno (hok hmakes).1
    · simp only [hnode, Option.some.injEq] at hopen
      rcases openNode_cases t node flags with ⟨hfull, heq⟩ | ⟨fd, hfree, heq⟩
      · rw [heq, Prod.mk.injEq] at hopen
        obtain ⟨rfl, rfl⟩ := hopen
        rw [freeFd_eq_none, hfd hfds] at hfull
        exact iff_of_false (fun hsame => hstays rfl (hsame rfl)) fun hok => hfull (hok hmakes).2
      · rw [heq, Prod.mk.injEq] at hopen
        obtain ⟨rfl, rfl⟩ := hopen
        have hsome : FdFree s := by
          rw [← hfd hfds]
          by_contra hno
          rw [freeFd_eq_none.mpr hno] at hfree
          cases hfree
        refine iff_of_true (fun hr => ?_) fun _ => ⟨hyes, hsome⟩
        have hnonneg : (0 : ℤ) ≤ fd := Int.natCast_nonneg fd
        omega
  · refine iff_of_true (fun hr => ?_) fun hyes => absurd hyes hmakes
    have hsame : s' = s := by
      rcases vfsOpen_cases hopen with ⟨-, heq⟩ | ⟨node, -, heq⟩ | ⟨hnull, t, hmade, -⟩
      · exact heq
      · rcases openNode_cases s node flags with ⟨-, heq'⟩ | ⟨fd, -, heq'⟩
        · rw [heq', Prod.mk.injEq] at heq
          exact heq.2
        · rw [heq', Prod.mk.injEq] at heq
          have hnonneg : (0 : ℤ) ≤ fd := Int.natCast_nonneg fd
          omega
      · by_cases hasked : flags &&& oCreat = 0
        · simp only [vfsOpen, hnull, if_pos hasked, Option.some.injEq, Prod.mk.injEq] at hopen
          exact hopen.2.symm
        · rcases createAt_cases (fun _ _ _ => rfl) hmade with ⟨hr, -⟩ | ⟨-, parent, hres, hc⟩
          · cases hr
          · exact absurd (makes_of_created hnull hasked hres hc) hmakes
    rw [hsame]
    exact ⟨fun _ => rfl, rfl, rfl⟩

theorem rootOnly_anyRun : Run (anyStep answers) (vfsInit fun _ _ => 0)
    [.call (.mount (str "/") (str "ramfs"))] rootOnly := by
  have hstep : anyStep answers (vfsInit fun _ _ => 0) (.call (.mount (str "/") (str "ramfs")))
      rootOnly := ⟨.ofValue 0, by rw [vfsCall, ramfsRoot_mount]; rfl⟩
  exact .cons hstep (.nil _)

/-- Opening a missing file without `O_CREAT`. -/
theorem vfsOpen_fails_unchanged_iff_missing :
    ∃ s', vfsOpen rootOnly (str "/a") 0 = some (-1, s') ∧
      ((-1 = (-1 : ℤ) → Unchanged rootOnly s') ↔
        (Makes rootOnly (str "/a") 0 → Splits rootOnly (str "/a") ∧ FdFree rootOnly)) := by
  have hfail : (vfsOpen rootOnly (str "/a") 0).map Prod.fst = some (-1) := by decide +kernel
  obtain ⟨⟨r, s'⟩, hs', hr⟩ := Option.map_eq_some_iff.mp hfail
  obtain rfl : r = -1 := hr
  have hrun : Run (anyStep answers₁) _ _ rootOnly := rootOnly_anyRun
  exact ⟨s', hs', vfsOpen_fails_unchanged_iff hrun hs'⟩

/-- A name of 32 bytes. -/
def longPath : Str := slash :: List.replicate 32 0x61

/-- The file is made under the first 31 bytes of its name, not found again, and left behind. -/
theorem vfsOpen_leaves_file :
    ¬ ∀ (calls : List AnyCall) (s s' : Vfs) (path : Str) (flags : UInt32),
      Run (anyStep answers₁) (vfsInit fun _ _ => 0) calls s →
        vfsOpen s path flags = some (-1, s') → Unchanged s s' := by
  intro hall
  have hout : (vfsOpen rootOnly longPath oCreat).map (fun o => (o.1, o.2.ramfsNodeCount)) =
      some (-1, 2) := by decide +kernel
  obtain ⟨⟨r, s'⟩, hopen, hboth⟩ := Option.map_eq_some_iff.mp hout
  obtain ⟨hr, hcount⟩ : r = -1 ∧ s'.ramfsNodeCount = 2 := Prod.mk.inj hboth
  have hone : rootOnly.ramfsNodeCount = 1 := by decide +kernel
  have hsame := (hall _ rootOnly s' longPath oCreat rootOnly_anyRun (hr ▸ hopen)).count
  omega

end Rhoudveine.Fs
