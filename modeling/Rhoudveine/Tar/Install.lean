import Rhoudveine.Tar.Names
import Rhoudveine.Fs.Contents

/-!
# Installing an archive

What the callback does for one member, and from it what the whole archive comes to.
-/

namespace Rhoudveine.Tar
open Memory Walk
open Fs hiding Holds

variable {answers : ℕ → UInt64}

/-! ## What has been installed -/

/-- The tree holds the entries `done`, and only the paths `made` can be reached. -/
structure Holding (answers : ℕ → UInt64) (made : List (List Str)) (done : List Entry) (s : Vfs) :
    Prop where
  tree : OneTree s
  closed : ∀ fd, (s.gFds fd).refcount = 0
  count_le : s.ramfsNodeCount ≤ maxRamfsNodes
  blocks : s.fileDataCount < s.ramfsNodeCount
  reached : ∀ comps n, walk (ramfsFinddir s) 0 comps = some n →
    comps = [] ∨ comps ∈ made
  dirs : ∀ e ∈ done, e.kind = .dir →
    ∃ n, walk (ramfsFinddir s) 0 e.comps = some n ∧ (s.ramfsNodePool n).isDir
  files : ∀ e ∈ done, ∀ flag0 content, e.kind = .file flag0 content →
    ∃ n k base, walk (ramfsFinddir s) 0 e.comps = some n ∧ Stored answers s n content k base

namespace Holding

variable {made : List (List Str)} {done : List Entry} {s s' : Vfs}

/-- A path that is not installed leads nowhere. -/
theorem walk_none (h : Holding answers made done s) {comps : List Str} (hne : comps ≠ [])
    (hnew : comps ∉ made) : walk (ramfsFinddir s) 0 comps = none := by
  cases hwalk : walk (ramfsFinddir s) 0 comps with
  | none => rfl
  | some n => exact ((h.reached comps n hwalk).elim hne hnew).elim

/-- Descriptors and file data may change behind the tree. -/
theorem congr (h : Holding answers made done s) (htree : SameTree s s')
    (hclosed : ∀ fd, (s'.gFds fd).refcount = 0) (hblocks : s'.fileDataCount < s.ramfsNodeCount)
    (hfiles : ∀ n content k base, Stored answers s n content k base →
      Stored answers s' n content k base) : Holding answers made done s' where
  tree := htree.oneTree h.tree
  closed := hclosed
  count_le := htree.count ▸ h.count_le
  blocks := htree.count ▸ hblocks
  reached comps n hwalk := by
    rw [htree.walk_eq] at hwalk
    exact h.reached comps n hwalk
  dirs e he hkind := by
    obtain ⟨n, hwalk, hdir⟩ := h.dirs e he hkind
    exact ⟨n, (htree.walk_eq _).trans hwalk, (htree.isDir_iff n).mpr hdir⟩
  files e he flag0 content hkind := by
    obtain ⟨n, k, base, hwalk, hstored⟩ := h.files e he flag0 content hkind
    exact ⟨n, k, base, (htree.walk_eq _).trans hwalk, hfiles n content k base hstored⟩

/-- Files stay what they are when a node is added. -/
theorem stored_grown {n k base p : ℕ} {content : List UInt8} {name : Str} {flags : UInt32}
    (hstored : Stored answers s n content k base) (hn : n ≠ s.ramfsNodeCount)
    (hgrown : OneTree.Grown s p name flags s') : Stored answers s' n content k base := by
  obtain ⟨hpool, hcount, hframes, hallocs, -⟩ := hgrown.files
  apply hstored.mono (hgrown.old n hn)
  · rw [hpool]
  · exact hcount.ge
  · exact hallocs.ge
  · intro i _
    rw [hframes]

/-- A second directory of one name changes nothing but the number of nodes. -/
theorem grown_dup (h : Holding answers made done s) (hroom : s.ramfsNodeCount < maxRamfsNodes) {p : ℕ}
    {name : Str} {flags : UInt32} (hgrown : OneTree.Grown s p name flags s')
    (hdup : ramfsFinddir s p name ≠ none) : Holding answers made done s' := by
  have hwalk (comps : List Str) := hgrown.walk_dup h.tree hdup comps
  obtain ⟨-, hcount, -, -, hfds⟩ := hgrown.files
  exact {
    tree := hgrown.tree
    closed := by
      rw [hfds]
      exact h.closed
    count_le := by
      rw [hgrown.count]
      exact hroom
    blocks := by
      rw [hcount, hgrown.count]
      exact h.blocks.trans (Nat.lt_succ_self _)
    reached := fun comps n hn => h.reached comps n ((hwalk comps).symm.trans hn)
    dirs := fun e he hkind => by
      obtain ⟨n, hn, hdir⟩ := h.dirs e he hkind
      refine ⟨n, (hwalk _).trans hn, ?_⟩
      rw [hgrown.old n (Nat.ne_of_lt (h.tree.walk_lt hn))]
      exact hdir
    files := fun e he flag0 content hkind => by
      obtain ⟨n, k, base, hn, hstored⟩ := h.files e he flag0 content hkind
      exact ⟨n, k, base, (hwalk _).trans hn,
        stored_grown hstored (Nat.ne_of_lt (h.tree.walk_lt hn)) hgrown⟩ }

/-- A new node at the end of a path. -/
theorem grown_new (h : Holding answers made done s) (hroom : s.ramfsNodeCount < maxRamfsNodes)
    {p : ℕ} {name : Str} {flags : UInt32} (hgrown : OneTree.Grown s p name flags s')
    {init : List Str} (hinit : walk (ramfsFinddir s) 0 init = some p)
    (hfree : ramfsFinddir s p name = none) :
    Holding answers (made ++ [init ++ [name]]) done s' ∧
      walk (ramfsFinddir s') 0 (init ++ [name]) = some s.ramfsNodeCount := by
  have hwalk (comps : List Str) := hgrown.walk_new h.tree hinit hfree comps
  have hold {comps : List Str} {n : ℕ} (hn : walk (ramfsFinddir s) 0 comps = some n) :
      walk (ramfsFinddir s') 0 comps = some n := by
    rw [hwalk, if_neg, hn]
    rintro rfl
    rw [walk_concat_some hinit, hfree] at hn
    cases hn
  obtain ⟨-, hcount, -, -, hfds⟩ := hgrown.files
  refine ⟨?_, (hwalk _).trans (if_pos rfl)⟩
  exact {
    tree := hgrown.tree
    closed := by
      rw [hfds]
      exact h.closed
    count_le := by
      rw [hgrown.count]
      exact hroom
    blocks := by
      rw [hcount, hgrown.count]
      exact h.blocks.trans (Nat.lt_succ_self _)
    reached := fun comps n hn => by
      rw [List.mem_append]
      by_cases hnew : comps = init ++ [name]
      · exact Or.inr (Or.inr (hnew ▸ List.mem_cons_self))
      · rw [hwalk, if_neg hnew] at hn
        exact (h.reached comps n hn).imp id Or.inl
    dirs := fun d hd hkind => by
      obtain ⟨n, hn, hisdir⟩ := h.dirs d hd hkind
      refine ⟨n, hold hn, ?_⟩
      rw [hgrown.old n (Nat.ne_of_lt (h.tree.walk_lt hn))]
      exact hisdir
    files := fun d hd flag0 content hkind => by
      obtain ⟨n, k, base, hn, hstored⟩ := h.files d hd flag0 content hkind
      exact ⟨n, k, base, hold hn, stored_grown hstored (Nat.ne_of_lt (h.tree.walk_lt hn)) hgrown⟩ }

/-- An entry that is now in place. -/
theorem add (h : Holding answers made done s) {e : Entry}
    (hdir : e.kind = .dir →
      ∃ n, walk (ramfsFinddir s) 0 e.comps = some n ∧ (s.ramfsNodePool n).isDir)
    (hfile : ∀ flag0 content, e.kind = .file flag0 content →
      ∃ n k base, walk (ramfsFinddir s) 0 e.comps = some n ∧ Stored answers s n content k base) :
    Holding answers made (done ++ [e]) s :=
  { h with
    dirs := fun d hd hkind => by
      rcases List.mem_append.mp hd with hd | hd
      · exact h.dirs d hd hkind
      · obtain rfl := List.mem_singleton.mp hd
        exact hdir hkind
    files := fun d hd flag0 content hkind => by
      rcases List.mem_append.mp hd with hd | hd
      · exact h.files d hd flag0 content hkind
      · obtain rfl := List.mem_singleton.mp hd
        exact hfile flag0 content hkind }

end Holding

/-! ## Making directories -/

section step

variable {made : List (List Str)} {done : List Entry} {s : Vfs}

/-- The directory part of a path, if it is there. -/
def HasDir (s : Vfs) (init : List Str) (p : ℕ) : Prop :=
  walk (ramfsFinddir s) 0 init = some p ∧ (s.ramfsNodePool p).isDir

theorem isDir_newNode (s : Vfs) (name : Str) : (newNode s name vfsDirectory).isDir := by
  change vfsDirectory &&& vfsDirectory ≠ 0
  decide

/-- `vfs_mkdir` of a path that is not there yet. -/
theorem mkdir_new (h : Holding answers made done s) (hroom : s.ramfsNodeCount < maxRamfsNodes)
    {init : List Str} {x : Str} {p : ℕ} (hinit : ∀ y ∈ init, Component y) (hx : Component x)
    (hlen : (absolute (init ++ [x])).length ≤ 100) (hp : HasDir s init p)
    (hnew : init ++ [x] ∉ made) :
    ∃ s', vfsMkdir s (absolute (init ++ [x])) = some (0, s') ∧
      Holding answers (made ++ [init ++ [x]]) done s' ∧
      (∃ n, walk (ramfsFinddir s') 0 (init ++ [x]) = some n ∧ (s'.ramfsNodePool n).isDir) ∧
      s'.ramfsNodeCount = s.ramfsNodeCount + 1 ∧ s'.allocs = s.allocs := by
  obtain ⟨s', heq, hgrown⟩ := h.tree.create vfsDirectory hroom hp.2 hx.length_le
  have hfree : ramfsFinddir s p x = none := by
    rw [← walk_concat_some hp.1]
    exact h.walk_none (by simp) hnew
  obtain ⟨hholding, hself⟩ := h.grown_new hroom hgrown hp.1 hfree
  refine ⟨s', ?_, hholding, ⟨_, hself, ?_⟩, hgrown.count, hgrown.files.2.2.2.1⟩
  · rw [vfsMkdir, h.tree.createAt_absolute _ hinit hx (by omega) hp.1]
    exact congrArg some heq
  · rw [hgrown.new]
    exact isDir_newNode s x

/-- `vfs_mkdir` of a directory that is there already takes a node if there is one. -/
theorem mkdir_again (h : Holding answers made done s) {init : List Str} {y : Str} {d : ℕ}
    (hinit : ∀ z ∈ init, Component z) (hy : Component y)
    (hlen : (absolute (init ++ [y])).length ≤ 100) (hd : HasDir s (init ++ [y]) d) :
    ∃ r s', vfsMkdir s (absolute (init ++ [y])) = some (r, s') ∧ Holding answers made done s' ∧
      HasDir s' (init ++ [y]) d ∧
      s'.ramfsNodeCount = min (s.ramfsNodeCount + 1) maxRamfsNodes ∧ s'.allocs = s.allocs := by
  rcases Nat.lt_or_ge s.ramfsNodeCount maxRamfsNodes with hroom | hfull
  · have hlast := hd.1
    rw [walk_concat] at hlast
    obtain ⟨p, hp, hfind⟩ := Option.bind_eq_some_iff.mp hlast
    obtain ⟨hdir, -⟩ := h.tree.finddir_slot hfind
    have hdup : ramfsFinddir s p y ≠ none := by
      rw [hfind]
      exact Option.some_ne_none d
    obtain ⟨s', heq, hgrown⟩ := h.tree.create vfsDirectory hroom hdir hy.length_le
    refine ⟨0, s', ?_, h.grown_dup hroom hgrown hdup, ⟨?_, ?_⟩, ?_, hgrown.files.2.2.2.1⟩
    · rw [vfsMkdir, h.tree.createAt_absolute _ hinit hy (by omega) hp]
      exact congrArg some heq
    · rw [hgrown.walk_dup h.tree hdup]
      exact hd.1
    · rw [hgrown.old d (Nat.ne_of_lt (h.tree.walk_lt hd.1))]
      exact hd.2
    · rw [hgrown.count, Nat.min_eq_left hroom]
  · refine ⟨-1, s, h.tree.createAt_full hfull (fun _ _ _ => rfl) _, h, hd, ?_, rfl⟩
    rw [Nat.min_eq_right (hfull.trans (Nat.le_succ _))]
    exact le_antisymm h.count_le hfull

/-- Before a file is opened: its directory is there, and one node less is left if that is not
the root. -/
theorem makeParent_step (h : Holding answers made done s) {init : List Str} {x : Str} {p : ℕ}
    (hinit : ∀ y ∈ init, Component y) (hx : Component x)
    (hlen : (absolute (init ++ [x])).length ≤ 100) (hp : HasDir s init p) :
    ∃ s', makeParent (absolute (init ++ [x])) s = some s' ∧ Holding answers made done s' ∧
      HasDir s' init p ∧
      s'.ramfsNodeCount = min (s.ramfsNodeCount + if init = [] then 0 else 1) maxRamfsNodes ∧
      s'.allocs = s.allocs := by
  rcases List.eq_nil_or_concat init with rfl | ⟨init', y, rfl⟩
  · refine ⟨s, makeParent_root hx hlen s, h, hp, ?_, rfl⟩
    rw [if_pos rfl, Nat.add_zero, Nat.min_eq_left h.count_le]
  · rw [List.concat_eq_append] at *
    have hshort : (absolute (init' ++ [y])).length ≤ 100 := by
      rw [absolute_concat (init' ++ [y]), List.length_append] at hlen
      rw [absolute, if_neg (by simp)]
      omega
    obtain ⟨r, s', heq, hholding, hd, hcount, hallocs⟩ := mkdir_again h
      (fun z hz => hinit z (List.mem_append_left _ hz))
      (hinit y (List.mem_append_right _ List.mem_cons_self)) hshort hp
    refine ⟨s', ?_, hholding, hd, ?_, hallocs⟩
    · rw [makeParent_nested hx hlen, heq]
      rfl
    · rw [if_neg (by simp), hcount]

/-! ## Writing a file -/

theorem freeFd_closed (hclosed : ∀ fd, (s.gFds fd).refcount = 0) : freeFd s = some 3 := by
  apply Search.firstSome_eq_some.mpr
  refine ⟨3, le_rfl, by decide, if_pos (hclosed 3), fun j hj hlt => ?_⟩
  exact absurd hlt (Nat.not_lt.mpr hj)

/-- `vfs_open` makes the file and takes the first descriptor. -/
theorem open_new (h : Holding answers made done s) (hroom : s.ramfsNodeCount < maxRamfsNodes)
    {init : List Str} {x : Str} {p : ℕ} (hinit : ∀ y ∈ init, Component y) (hx : Component x)
    (hlen : (absolute (init ++ [x])).length ≤ 100) (hp : HasDir s init p)
    (hnew : init ++ [x] ∉ made) :
    ∃ s' n, vfsOpen s (absolute (init ++ [x])) 0x0101 = some (3, s'.setFd 3 ⟨some n, 0, 0x0101, 1⟩) ∧
      Holding answers (made ++ [init ++ [x]]) done s' ∧
      walk (ramfsFinddir s') 0 (init ++ [x]) = some n ∧ NewFile s' n ∧
      (s'.ramfsNodePool n).ops = some .ramfs ∧
      s'.ramfsNodeCount = s.ramfsNodeCount + 1 ∧ s'.fileDataCount = s.fileDataCount ∧
      s'.allocs = s.allocs := by
  obtain ⟨s', heq, hgrown⟩ := h.tree.create vfsFile hroom hp.2 hx.length_le
  have hnone := h.walk_none (by simp) hnew
  have hfree : ramfsFinddir s p x = none := by
    rw [← walk_concat_some hp.1]
    exact hnone
  obtain ⟨hholding, hself⟩ := h.grown_new hroom hgrown hp.1 hfree
  have hcomps : ∀ y ∈ init ++ [x], Component y := by
    intro y hy
    rcases List.mem_append.mp hy with hy | hy
    · exact hinit y hy
    · exact List.mem_singleton.mp hy ▸ hx
  have hcreate : vfsCreate s (absolute (init ++ [x])) = some (0, s') := by
    rw [vfsCreate, h.tree.createAt_absolute _ hinit hx (by omega) hp.1]
    exact congrArg some heq
  refine ⟨s', s.ramfsNodeCount, ?_, hholding, hself, ?_, ?_, hgrown.count, hgrown.files.2.1,
    hgrown.files.2.2.2.1⟩
  · -- `vfs_open` finds nothing, creates the file and resolves the path again
    have hflag : ¬ (0x0101 : UInt32) &&& oCreat = 0 := by decide
    have happend : ¬ (0x0101 : UInt32) &&& oAppend ≠ 0 := by decide
    rw [vfsOpen, h.tree.resolve_absolute hcomps, hnone]
    dsimp only [Resolved.ofPointer]
    rw [if_neg hflag, hcreate]
    dsimp only
    rw [if_neg (not_not.mpr rfl), hgrown.tree.resolve_absolute hcomps, hself]
    dsimp only [Resolved.ofPointer]
    rw [openNode, freeFd_closed hholding.closed]
    dsimp only
    rw [if_neg happend]
    rfl
  · constructor
    · rw [hgrown.new]
      change ¬ (vfsFile &&& vfsDirectory ≠ 0)
      decide
    · rw [hgrown.new]
      rfl
    · rw [hgrown.new]
      rfl
  · rw [hgrown.new]
    rfl

/-- `vfs_open` fails when no node is left. -/
theorem open_full (h : Holding answers made done s) (hfull : maxRamfsNodes ≤ s.ramfsNodeCount)
    {comps : List Str} (hcomps : ∀ y ∈ comps, Component y) (hne : comps ≠ [])
    (hnew : comps ∉ made) : vfsOpen s (absolute comps) 0x0101 = some (-1, s) := by
  have hflag : ¬ (0x0101 : UInt32) &&& oCreat = 0 := by decide
  have hcreate : vfsCreate s (absolute comps) = some (-1, s) :=
    h.tree.createAt_full hfull (fun _ _ _ => rfl) _
  rw [vfsOpen, h.tree.resolve_absolute hcomps, h.walk_none hne hnew]
  dsimp only [Resolved.ofPointer]
  rw [if_neg hflag, hcreate]
  rfl

theorem liveFd_opened (s : Vfs) {file : FileDescriptor} (hopen : file.refcount ≠ 0) :
    liveFd (s.setFd 3 file) 3 = some (3, file) := by
  have hfd := liveFd_setFd (s := s) (show 0 ≤ (3 : ℤ) by norm_num) (by decide) file 3
  rwa [if_pos rfl, if_neg hopen] at hfd

/-- `vfs_write` through a descriptor that was just opened. -/
theorem vfsWrite_opened {n : ℕ} (hops : (s.ramfsNodePool n).ops = some .ramfs) (data : ℕ → UInt8)
    (size : UInt64) {r : ℤ} {t : Vfs}
    (hwrite : ramfsWrite answers (s.setFd 3 ⟨some n, 0, 0x0101, 1⟩) (some n) 0 size.toUInt32 data =
      some (r, t)) :
    vfsWrite answers (s.setFd 3 ⟨some n, 0, 0x0101, 1⟩) 3 data size =
      some (r, t.setFd 3 (advance ⟨some n, 0, 0x0101, 1⟩ r)) := by
  have hops' : ((s.setFd 3 ⟨some n, 0, 0x0101, 1⟩).ramfsNodePool n).ops = some .ramfs := hops
  rw [vfsWrite, liveFd_opened s (by norm_num)]
  dsimp only [Option.bind_some]
  rw [hops']
  dsimp only
  rw [hwrite]

theorem vfsClose_opened (t : Vfs) {file : FileDescriptor} (hopen : file.refcount = 1) :
    (vfsClose (t.setFd 3 file) 3).2 =
      (t.setFd 3 file).setFd 3 { file with refcount := 0, node := none } := by
  rw [vfsClose, liveFd_opened t (by rw [hopen]; norm_num)]
  dsimp only
  rw [hopen]
  rfl

/-- The first write through a descriptor that was just opened, and the close. -/
theorem write_close (h : Holding answers made done s) (hfresh : FreshAnswers answers) {n : ℕ}
    (hn : NewFile s n) (hops : (s.ramfsNodePool n).ops = some .ramfs)
    (hblocks : s.fileDataCount + 1 < s.ramfsNodeCount) {size : UInt64} {content : List UInt8}
    (hsize : size.toNat = content.length) (hmax : content.length ≤ 512 * 1024) {data : ℕ → UInt8}
    (hdata : ∀ i (hi : i < content.length), data i = content[i])
    (hpages : ∀ i < pagesTaken content.length, answers (s.allocs + i) ≠ 0) :
    ∃ s', vfsWrite answers (s.setFd 3 ⟨some n, 0, 0x0101, 1⟩) 3 data size =
        some ((content.length : ℤ), s') ∧
      Holding answers made done (vfsClose s' 3).2 ∧ SameTree s (vfsClose s' 3).2 ∧
      (∃ k base, Stored answers (vfsClose s' 3).2 n content k base) ∧
      (vfsClose s' 3).2.allocs = s.allocs + pagesTaken content.length := by
  have hsize32 : size.toUInt32.toNat = content.length := by
    rw [UInt64.toNat_toUInt32, hsize]
    exact Nat.mod_eq_of_lt (hmax.trans_lt (by norm_num))
  have hnew : NewFile (s.setFd 3 ⟨some n, 0, 0x0101, 1⟩) n := ⟨hn.not_dir, hn.null, hn.size⟩
  have hroom : s.fileDataCount < maxRamfsFiles := h.blocks.trans_le h.count_le
  obtain ⟨t, heq, hfirst⟩ := ramfsWrite_first hfresh hnew hroom hsize32 hmax hpages hdata
  refine ⟨_, vfsWrite_opened hops data size heq, ?_⟩
  have hopen : (advance ⟨some n, 0, 0x0101, 1⟩ (content.length : ℤ)).refcount = 1 := by
    unfold advance
    split <;> rfl
  rw [vfsClose_opened t hopen]
  generalize advance ⟨some n, 0, 0x0101, 1⟩ (content.length : ℤ) = file
  have hopened : SameTree s (s.setFd 3 ⟨some n, 0, 0x0101, 1⟩) := .of_pool rfl rfl rfl rfl rfl rfl
  have htree : SameTree s ((t.setFd 3 file).setFd 3 { file with refcount := 0, node := none }) :=
    hopened.trans (hfirst.tree.trans (.of_pool rfl rfl rfl rfl rfl rfl))
  have hstored {m k base : ℕ} {content' : List UInt8} (hm : Stored answers t m content' k base) :
      Stored answers ((t.setFd 3 file).setFd 3 { file with refcount := 0, node := none }) m content'
        k base := hm.mono rfl rfl le_rfl le_rfl fun _ _ => rfl
  refine ⟨h.congr htree ?_ ?_ ?_, htree, ⟨_, _, hstored hfirst.stored⟩, hfirst.allocs⟩
  · intro fd
    by_cases hfd : fd = 3
    · subst hfd
      simp only [Vfs.setFd, Function.update_self]
    · simp only [Vfs.setFd, Function.update_of_ne hfd, hfirst.fds]
      exact h.closed fd
  · change t.fileDataCount < s.ramfsNodeCount
    rw [hfirst.count]
    exact hblocks
  · intro m content' k base hm
    apply hstored
    apply hfirst.kept m content' k base
    · -- the old files have their blocks
      rintro rfl
      have hnull := hn.null
      rw [hm.block.2] at hnull
      cases hnull
    · exact hm.mono rfl rfl le_rfl le_rfl fun _ _ => rfl

/-- Without enough pages the first write returns -1. -/
theorem write_short (h : Holding answers made done s) {n : ℕ} (hn : NewFile s n)
    (hops : (s.ramfsNodePool n).ops = some .ramfs) {size : UInt64} {length : ℕ}
    (hsize : size.toNat = length) (hmax : length ≤ 512 * 1024) {i : ℕ} (hi : i < pagesTaken length)
    (hzero : answers (s.allocs + i) = 0) (data : ℕ → UInt8) :
    ∃ s', vfsWrite answers (s.setFd 3 ⟨some n, 0, 0x0101, 1⟩) 3 data size = some (-1, s') := by
  have hsize32 : size.toUInt32.toNat = length := by
    rw [UInt64.toNat_toUInt32, hsize]
    exact Nat.mod_eq_of_lt (hmax.trans_lt (by norm_num))
  have hnew : NewFile (s.setFd 3 ⟨some n, 0, 0x0101, 1⟩) n := ⟨hn.not_dir, hn.null, hn.size⟩
  have hroom : s.fileDataCount < maxRamfsFiles := h.blocks.trans_le h.count_le
  obtain ⟨t, heq⟩ := ramfsWrite_short hnew hroom hsize32 hmax hi hzero data
  exact ⟨_, vfsWrite_opened hops data size heq⟩

section file

variable (h : Holding answers made done s) {free : ℕ} (hfree : ∀ i, answers i ≠ 0 ↔ i < free)
  {init : List Str} {x : Str} {p : ℕ} (hinit : ∀ y ∈ init, Component y) (hx : Component x)
  (hlen : (absolute (init ++ [x])).length ≤ 100) (hp : HasDir s init p)
  (hnew : init ++ [x] ∉ made) {size : UInt64} {content : List UInt8}
  (hsize : size.toNat = content.length) (hmax : content.length ≤ 512 * 1024)
include h hfree hinit hx hlen hp hnew hsize hmax

/-- With enough nodes and pages the file is there afterwards. -/
theorem extractFile_fits (hfresh : FreshAnswers answers) {data : ℕ → UInt8}
    (hdata : ∀ i (hi : i < content.length), data i = content[i])
    (hnodes : s.ramfsNodeCount + (if init = [] then 0 else 1) + 1 ≤ maxRamfsNodes)
    (hpages : s.allocs + pagesTaken content.length ≤ free) (ctx : ExtractContext) :
    ∃ s', extractFile answers (absolute (init ++ [x])) data size (s, ctx) =
        some (s', { ctx with fileCount := ctx.fileCount + 1 }) ∧
      Holding answers (made ++ [init ++ [x]]) done s' ∧
      (∃ n k base, walk (ramfsFinddir s') 0 (init ++ [x]) = some n ∧
        Stored answers s' n content k base) ∧
      s'.ramfsNodeCount = s.ramfsNodeCount + (if init = [] then 0 else 1) + 1 ∧
      s'.allocs = s.allocs + pagesTaken content.length := by
  obtain ⟨s₁, hparent, h₁, hp₁, hcount₁, hallocs₁⟩ := makeParent_step h hinit hx hlen hp
  rw [Nat.min_eq_left ((Nat.le_succ _).trans hnodes)] at hcount₁
  obtain ⟨s₂, n, hopen, h₂, hself, hfile, hops, hcount₂, hblocks₂, hallocs₂⟩ :=
    open_new h₁ (hcount₁ ▸ hnodes) hinit hx hlen hp₁ hnew
  have hblocks : s₂.fileDataCount + 1 < s₂.ramfsNodeCount := by
    rw [hblocks₂, hcount₂]
    exact Nat.succ_lt_succ h₁.blocks
  have hallocs : s₂.allocs = s.allocs := hallocs₂.trans hallocs₁
  obtain ⟨s₃, hwrite, h₃, htree, ⟨k, base, hstored⟩, hallocs₃⟩ :=
    write_close h₂ hfresh hfile hops hblocks hsize hmax hdata (by
      intro i hi
      rw [hfree, hallocs]
      exact (Nat.add_lt_add_left hi _).trans_le hpages)
  have hint : size.toUInt32.toInt32.toInt = (content.length : ℤ) := by
    have hsize32 : size.toUInt32.toNat = content.length := by
      rw [UInt64.toNat_toUInt32, hsize]
      exact Nat.mod_eq_of_lt (hmax.trans_lt (by norm_num))
    rw [toInt_toInt32 (hsize32 ▸ hmax.trans_lt (by norm_num)), hsize32]
  refine ⟨(vfsClose s₃ 3).2, ?_, h₃, ⟨n, k, base, (htree.walk_eq _).trans hself, hstored⟩, ?_, ?_⟩
  · rw [extractFile]
    dsimp only
    rw [hparent, Option.bind_some, hopen, Option.bind_some, if_neg (by norm_num), hwrite,
      Option.map_some, hint, if_pos rfl]
  · rw [htree.count, hcount₂, hcount₁]
  · rw [hallocs₃, hallocs]

/-- Otherwise the callback counts an error. -/
theorem extractFile_short (data : ℕ → UInt8)
    (hshort : ¬ (s.ramfsNodeCount + (if init = [] then 0 else 1) + 1 ≤ maxRamfsNodes ∧
      s.allocs + pagesTaken content.length ≤ free)) (ctx : ExtractContext) :
    ∃ s', extractFile answers (absolute (init ++ [x])) data size (s, ctx) =
      some (s', { ctx with errorCount := ctx.errorCount + 1 }) := by
  obtain ⟨s₁, hparent, h₁, hp₁, hcount₁, hallocs₁⟩ := makeParent_step h hinit hx hlen hp
  rcases Nat.lt_or_ge s₁.ramfsNodeCount maxRamfsNodes with hroom | hfull
  · -- a node is left, so it is the pages that are short
    obtain ⟨s₂, n, hopen, h₂, -, hfile, hops, -, -, hallocs₂⟩ :=
      open_new h₁ hroom hinit hx hlen hp₁ hnew
    have hpages : ¬ s.allocs + pagesTaken content.length ≤ free := by
      intro hpages
      apply hshort
      refine ⟨?_, hpages⟩
      rw [hcount₁] at hroom
      exact (min_lt_iff.mp hroom).resolve_right (lt_irrefl _)
    obtain ⟨i, hi, hzero⟩ : ∃ i < pagesTaken content.length, answers (s₂.allocs + i) = 0 := by
      have htaken : 0 < pagesTaken content.length := by
        unfold pagesTaken maxFilePages
        split <;> omega
      refine ⟨pagesTaken content.length - 1, by omega, ?_⟩
      by_contra hne
      have hlt := (hfree _).mp hne
      rw [hallocs₂, hallocs₁] at hlt
      omega
    obtain ⟨s₃, hwrite⟩ := write_short h₂ hfile hops hsize hmax hi hzero data
    have hint : (-1 : ℤ) ≠ size.toUInt32.toInt32.toInt := by
      have hsize32 : size.toUInt32.toNat = content.length := by
        rw [UInt64.toNat_toUInt32, hsize]
        exact Nat.mod_eq_of_lt (hmax.trans_lt (by norm_num))
      rw [toInt_toInt32 (hsize32 ▸ hmax.trans_lt (by norm_num)), hsize32]
      omega
    refine ⟨(vfsClose s₃ 3).2, ?_⟩
    rw [extractFile]
    dsimp only
    rw [hparent, Option.bind_some, hopen, Option.bind_some, if_neg (by norm_num), hwrite,
      Option.map_some, if_neg hint]
  · -- without a node the file is not opened
    have hcomps : ∀ y ∈ init ++ [x], Component y := by
      intro y hy
      rcases List.mem_append.mp hy with hy | hy
      · exact hinit y hy
      · exact List.mem_singleton.mp hy ▸ hx
    refine ⟨s₁, ?_⟩
    rw [extractFile]
    dsimp only
    rw [hparent, Option.bind_some, open_full h₁ hfull hcomps (by simp) hnew, Option.bind_some,
      if_pos (by norm_num)]

end file

end step

/-! ## One member after the other -/

/-- Nodes and pages are enough for these entries. -/
def Fits (free : ℕ) (es : List Entry) : Prop := NodesFit es ∧ PagesFit free es

/-- Everything so far is in place. -/
structure Good (answers : ℕ → UInt64) (free : ℕ) (done : List Entry) (st : Vfs × ExtractContext) :
    Prop where
  holding : Holding answers (done.map Entry.comps) done st.1
  errors : st.2.errorCount = 0
  nodes : st.1.ramfsNodeCount = (done.map Entry.nodes).sum + 1
  pages : st.1.allocs = (done.map Entry.pages).sum
  fits : Fits free done

/-- An error has been counted, or no node is left and a directory is missing. -/
def Failed (answers : ℕ → UInt64) (seen : List Entry) (st : Vfs × ExtractContext) : Prop :=
  0 < st.2.errorCount ∨
    0 ≤ st.2.errorCount ∧
    ∃ made done e, Holding answers made done st.1 ∧ maxRamfsNodes ≤ st.1.ramfsNodeCount ∧
      (∀ comps ∈ made, comps ∈ seen.map Entry.comps) ∧ e ∈ seen ∧ e.comps ≠ [] ∧ e.comps ∉ made ∧
      (∀ y ∈ e.comps, Component y)

/-- What the callback is given for a member. -/
def Suits (e : Entry) (data : Option (ℕ → UInt8)) (size : UInt64) : Prop :=
  match e.kind with
  | .dir => data = none
  | .file _ content => size.toNat = content.length ∧
      ∃ f, data = some f ∧ ∀ i (hi : i < content.length), f i = content[i]

theorem rootfsCall_of_callFor (answers : ℕ → UInt64) {tar : Memory} {e : Entry} (he : e.WellFormed) {c : Call}
    (hc : CallFor tar e.member c) :
    ∃ data, Suits e data c.size ∧ ∀ st,
      (rootfsCall answers tar c st).2 =
        st.bind (rootfsExtractCallback answers e.name data c.size) := by
  obtain ⟨hname, hsize, hdata⟩ := hc
  have hpath : e.member.path = e.name := if_pos rfl
  have hlen := he.name_length
  rw [hpath] at hname
  refine ⟨c.data.map fun d i => tar (d + UInt64.ofNat i), ?_, fun st => ?_⟩
  · have hmember : e.member.kind = e.kind := rfl
    rw [hmember] at hsize hdata
    unfold Suits
    cases hkind : e.kind with
    | dir =>
      rw [hkind] at hdata
      dsimp only at hdata ⊢
      rw [hdata]
      rfl
    | file flag0 content =>
      rw [hkind] at hdata hsize
      obtain ⟨d, hd, hholds⟩ := hdata
      refine ⟨hsize, _, by rw [hd]; rfl, fun i hi => hholds.getElem hi⟩
  · rw [rootfsCall, readStr_cStr hname (by omega)]

section entry

variable {done : List Entry} {st : Vfs × ExtractContext} {free : ℕ} {e : Entry}

theorem sum_concat (f : Entry → ℕ) (done : List Entry) (e : Entry) :
    ((done ++ [e]).map f).sum = (done.map f).sum + f e := by
  rw [List.map_append, List.sum_append, List.map_singleton, List.sum_singleton]

/-- The directory that a member goes into. -/
theorem Good.hasDir (h : Good answers free done st) {init : List Str}
    (hparent : init ≠ [] → ∃ d ∈ done, d.comps = init ∧ d.kind = .dir) :
    ∃ p, HasDir st.1 init p := by
  by_cases hroot : init = []
  · subst hroot
    exact ⟨0, rfl, h.holding.tree.root_dir⟩
  · obtain ⟨d, hd, rfl, hkind⟩ := hparent hroot
    exact h.holding.dirs d hd hkind

theorem Good.root (h : Good answers free done st) (he : e.WellFormed) (hroot : e.comps = []) :
    Good answers free (done ++ [e]) st := by
  obtain ⟨hkind, -⟩ := he.root_dir hroot
  have hnodes : e.nodes = 0 := by
    unfold Entry.nodes
    rw [hkind, hroot]
    rfl
  have hpages : e.pages = 0 := by
    unfold Entry.pages
    rw [hkind]
  have hmade : Holding answers ((done ++ [e]).map Entry.comps) done st.1 :=
    { h.holding with
      reached := fun comps n hn => (h.holding.reached comps n hn).imp id fun hmem => by
        rw [List.map_append]
        exact List.mem_append_left _ hmem }
  refine ⟨hmade.add (fun _ => ⟨0, by rw [hroot]; rfl, h.holding.tree.root_dir⟩) ?_, h.errors, ?_, ?_, ?_⟩
  · intro flag0 content hfile
    rw [hkind] at hfile
    cases hfile
  · rw [sum_concat, hnodes, Nat.add_zero]
    exact h.nodes
  · rw [sum_concat, hpages, Nat.add_zero]
    exact h.pages
  · unfold Fits NodesFit PagesFit
    rw [sum_concat, sum_concat, hnodes, hpages]
    exact h.fits

theorem fits_concat : Fits free (done ++ [e]) ↔
    (done.map Entry.nodes).sum + e.nodes + 1 ≤ maxRamfsNodes ∧
      (done.map Entry.pages).sum + e.pages ≤ free := by
  unfold Fits NodesFit PagesFit
  rw [sum_concat, sum_concat]

/-- One more member is in place. -/
theorem Good.placed (h : Good answers free done st) {s' : Vfs} {ctx' : ExtractContext}
    (hholding : Holding answers (done.map Entry.comps ++ [e.comps]) done s')
    (hdir : e.kind = .dir →
      ∃ n, walk (ramfsFinddir s') 0 e.comps = some n ∧ (s'.ramfsNodePool n).isDir)
    (hfile : ∀ flag0 content, e.kind = .file flag0 content →
      ∃ n k base, walk (ramfsFinddir s') 0 e.comps = some n ∧ Stored answers s' n content k base)
    (herrors : ctx'.errorCount = st.2.errorCount)
    (hcount : s'.ramfsNodeCount = st.1.ramfsNodeCount + e.nodes)
    (hallocs : s'.allocs = st.1.allocs + e.pages) (hfits : Fits free (done ++ [e])) :
    Good answers free (done ++ [e]) (s', ctx') := by
  constructor
  · rw [List.map_append, List.map_singleton]
    exact hholding.add hdir hfile
  · exact herrors.trans h.errors
  · rw [sum_concat, hcount, h.nodes, Nat.add_right_comm]
  · rw [sum_concat, hallocs, h.pages]
  · exact hfits

/-- One more directory. -/
theorem Good.step_dir (h : Good answers free done st) (he : e.WellFormed) (hkind : e.kind = .dir)
    {init : List Str} {x : Str} (hcomps : e.comps = init ++ [x])
    (hinit : ∀ y ∈ init, Component y) (hx : Component x) {p : ℕ} (hp : HasDir st.1 init p)
    (hnew : e.comps ∉ done.map Entry.comps) (size : UInt64) :
    ∃ st', rootfsExtractCallback answers e.name none size st = some st' ∧
      (Fits free (done ++ [e]) → Good answers free (done ++ [e]) st') ∧
      (¬ Fits free (done ++ [e]) → Failed answers (done ++ [e]) st') := by
  obtain ⟨s, ctx⟩ := st
  have hnodes : s.ramfsNodeCount = (done.map Entry.nodes).sum + 1 := h.nodes
  have hroot : e.comps ≠ [] := by
    rw [hcomps]
    simp
  have hlen := he.length_absolute
  have hnew' := hnew
  rw [hcomps] at hlen hnew'
  have hone : e.nodes = 1 := by
    unfold Entry.nodes
    rw [hkind]
    exact if_neg hroot
  have hnone : e.pages = 0 := by
    unfold Entry.pages
    rw [hkind]
  have hcallback : rootfsExtractCallback answers e.name none size (s, ctx) = _ :=
    he.callback_dir hcomps size (s, ctx)
  dsimp only at hcallback
  rw [hcomps] at hcallback
  -- a directory needs a node and no page
  rcases Nat.lt_or_ge s.ramfsNodeCount maxRamfsNodes with hroom | hfull
  · obtain ⟨s', heq, hholding, hisdir, hcount, hallocs⟩ :=
      mkdir_new h.holding hroom hinit hx hlen hp hnew'
    rw [heq, Option.map_some, if_pos rfl] at hcallback
    rw [← hcomps] at hholding hisdir
    have hfits : Fits free (done ++ [e]) := by
      rw [fits_concat, hone, hnone]
      exact ⟨by omega, h.fits.2⟩
    have hgood : Good answers free (done ++ [e]) (s', { ctx with dirCount := ctx.dirCount + 1 }) := by
      refine h.placed hholding (fun _ => hisdir) ?_ ?_ ?_ ?_ hfits
      · intro flag0 content hfile
        rw [hkind] at hfile
        cases hfile
      · rfl
      · rw [hone]
        exact hcount
      · rw [hnone]
        exact hallocs
    exact ⟨_, hcallback, fun _ => hgood, fun hnot => absurd hfits hnot⟩
  · -- no node is left
    have hmkdir : vfsMkdir s (absolute (init ++ [x])) = some (-1, s) :=
      h.holding.tree.createAt_full hfull (fun _ _ _ => rfl) _
    rw [hmkdir, Option.map_some, if_neg (by norm_num)] at hcallback
    refine ⟨_, hcallback, fun hfits => ?_, fun _ => Or.inr ⟨h.errors.ge, ?_⟩⟩
    · have hsum := (fits_concat.mp hfits).1
      rw [hone] at hsum
      omega
    · refine ⟨_, done, e, h.holding, hfull, fun comps hmem => ?_,
        List.mem_append_right _ List.mem_cons_self, hroot, hnew, he.component⟩
      rw [List.map_append]
      exact List.mem_append_left _ hmem

/-- One more file. -/
theorem Good.step_file (h : Good answers free done st) (hfresh : FreshAnswers answers)
    (hfree : ∀ i, answers i ≠ 0 ↔ i < free) (he : e.WellFormed) {flag0 : Bool}
    {content : List UInt8} (hkind : e.kind = .file flag0 content) {init : List Str} {x : Str}
    (hcomps : e.comps = init ++ [x]) (hinit : ∀ y ∈ init, Component y) (hx : Component x) {p : ℕ}
    (hp : HasDir st.1 init p) (hnew : e.comps ∉ done.map Entry.comps) {f : ℕ → UInt8}
    (hf : ∀ i (hi : i < content.length), f i = content[i]) {size : UInt64}
    (hsize : size.toNat = content.length) :
    ∃ st', rootfsExtractCallback answers e.name (some f) size st = some st' ∧
      (Fits free (done ++ [e]) → Good answers free (done ++ [e]) st') ∧
      (¬ Fits free (done ++ [e]) → Failed answers (done ++ [e]) st') := by
  obtain ⟨s, ctx⟩ := st
  have hnodes : s.ramfsNodeCount = (done.map Entry.nodes).sum + 1 := h.nodes
  have hpages : s.allocs = (done.map Entry.pages).sum := h.pages
  have hlen := he.length_absolute
  have hnew' := hnew
  rw [hcomps] at hlen hnew'
  have hmax := he.content_length
  rw [hkind] at hmax
  change content.length ≤ 512 * 1024 at hmax
  have hneed : e.nodes = (if init = [] then 0 else 1) + 1 := by
    unfold Entry.nodes
    rw [hkind, hcomps]
    cases init with
    | nil => rfl
    | cons y ys =>
      rw [if_neg (List.cons_ne_nil y ys)]
      exact if_neg (by simp)
  have htaken : e.pages = pagesTaken content.length := by
    unfold Entry.pages
    rw [hkind]
  have hcallback : rootfsExtractCallback answers e.name (some f) size (s, ctx) = _ :=
    he.callback_file hkind f size (s, ctx)
  rw [hcomps] at hcallback
  have hroom : Fits free (done ++ [e]) ↔
      s.ramfsNodeCount + (if init = [] then 0 else 1) + 1 ≤ maxRamfsNodes ∧
        s.allocs + pagesTaken content.length ≤ free := by
    rw [fits_concat, hneed, htaken, hnodes, hpages]
    apply and_congr_left'
    omega
  -- a file needs its nodes and the pages of its content
  by_cases hfits : s.ramfsNodeCount + (if init = [] then 0 else 1) + 1 ≤ maxRamfsNodes ∧
      s.allocs + pagesTaken content.length ≤ free
  · obtain ⟨s', heq, hholding, hstored, hcount, hallocs⟩ := extractFile_fits h.holding hfree hinit hx
      hlen hp hnew' hsize hmax hfresh hf hfits.1 hfits.2 ctx
    rw [← hcomps] at hholding hstored
    have hgood : Good answers free (done ++ [e]) (s', { ctx with fileCount := ctx.fileCount + 1 }) := by
      refine h.placed hholding ?_ ?_ ?_ ?_ ?_ (hroom.mpr hfits)
      · intro hdir
        rw [hkind] at hdir
        cases hdir
      · intro flag0' content' hfile
        rw [hkind] at hfile
        cases hfile
        exact hstored
      · rfl
      · rw [hneed]
        exact hcount
      · rw [htaken]
        exact hallocs
    exact ⟨_, hcallback.trans heq, fun _ => hgood, fun hnot => absurd (hroom.mpr hfits) hnot⟩
  · obtain ⟨s', heq⟩ := extractFile_short h.holding hfree hinit hx hlen hp hnew' hsize hmax f hfits ctx
    refine ⟨_, hcallback.trans heq, fun hboth => absurd (hroom.mp hboth) hfits, fun _ => Or.inl ?_⟩
    have herrors : ctx.errorCount = 0 := h.errors
    dsimp only
    rw [herrors]
    norm_num

/-- One more member. -/
theorem Good.step (h : Good answers free done st) (hfresh : FreshAnswers answers)
    (hfree : ∀ i, answers i ≠ 0 ↔ i < free) (he : e.WellFormed)
    (hparent : ∀ init x, e.comps = init ++ [x] → init ≠ [] →
      ∃ d ∈ done, d.comps = init ∧ d.kind = .dir)
    (hnew : e.comps ∉ done.map Entry.comps) {data : Option (ℕ → UInt8)} {size : UInt64}
    (hsuits : Suits e data size) :
    ∃ st', rootfsExtractCallback answers e.name data size st = some st' ∧
      (Fits free (done ++ [e]) → Good answers free (done ++ [e]) st') ∧
      (¬ Fits free (done ++ [e]) → Failed answers (done ++ [e]) st') := by
  unfold Suits at hsuits
  by_cases hroot : e.comps = []
  · rw [(he.root_dir hroot).1] at hsuits
    subst hsuits
    have hgood := h.root he hroot
    exact ⟨_, he.callback_root hroot size st, fun _ => hgood, fun hnot => absurd hgood.fits hnot⟩
  obtain ⟨init, x, hcomps, hinit, hx⟩ := he.comps_concat hroot
  obtain ⟨p, hp⟩ := h.hasDir (hparent init x hcomps)
  cases hkind : e.kind with
  | dir =>
    rw [hkind] at hsuits
    subst hsuits
    exact h.step_dir he hkind hcomps hinit hx hp hnew size
  | file flag0 content =>
    rw [hkind] at hsuits
    obtain ⟨hsize, f, rfl, hf⟩ := hsuits
    exact h.step_file hfresh hfree he hkind hcomps hinit hx hp hnew hf hsize

/-- The callback never takes an error back. -/
theorem errorCount_mono {filename : Str} {data : Option (ℕ → UInt8)} {size : UInt64}
    {st' : Vfs × ExtractContext}
    (heq : rootfsExtractCallback answers filename data size st = some st') :
    st.2.errorCount ≤ st'.2.errorCount := by
  unfold rootfsExtractCallback at heq
  split at heq
  · exact (congrArg (fun (st : Vfs × ExtractContext) => st.2.errorCount) (Option.some.inj heq)).le
  dsimp only at heq
  generalize abspath _ = path at heq
  cases data with
  | none =>
    dsimp only at heq
    unfold extractDirectory at heq
    dsimp only at heq
    generalize (if (path.take 255).getLast? = some slash then (path.take 255).dropLast
      else path.take 255) = dirname at heq
    split at heq
    · exact (congrArg (fun (st : Vfs × ExtractContext) => st.2.errorCount) (Option.some.inj heq)).le
    · obtain ⟨made, -, rfl⟩ := Option.map_eq_some_iff.mp heq
      dsimp only
      split <;> exact le_rfl
  | some data =>
    dsimp only at heq
    unfold extractFile at heq
    dsimp only at heq
    obtain ⟨s₁, -, heq⟩ := Option.bind_eq_some_iff.mp heq
    obtain ⟨opened, -, heq⟩ := Option.bind_eq_some_iff.mp heq
    split at heq
    · obtain rfl := Option.some.inj heq
      exact Int.le_add_one le_rfl
    · obtain ⟨written, -, rfl⟩ := Option.map_eq_some_iff.mp heq
      dsimp only
      split
      · exact le_rfl
      · exact Int.le_add_one le_rfl

/-- Nothing is made without a node. -/
theorem makeParent_full {s : Vfs} (h : OneTree s) (hfull : maxRamfsNodes ≤ s.ramfsNodeCount)
    (path : Str) : makeParent path s = some s := by
  have hmkdir (path : Str) : vfsMkdir s path = some (-1, s) :=
    h.createAt_full hfull (fun _ _ _ => rfl) path
  unfold makeParent
  dsimp only
  split
  · rfl
  · split
    · rfl
    · rw [hmkdir]
      rfl

/-- What went wrong stays wrong. -/
theorem Failed.step {seen : List Entry} (h : Failed answers seen st) (he : e.WellFormed)
    (hnew : e.comps ∉ seen.map Entry.comps) {data : Option (ℕ → UInt8)} {size : UInt64}
    (hsuits : Suits e data size) {st' : Vfs × ExtractContext}
    (heq : rootfsExtractCallback answers e.name data size st = some st') :
    Failed answers (seen ++ [e]) st' := by
  rcases h with herrors | ⟨hnonneg, made, done, d, hholding, hfull, hmade, hd, hdne, hmissing, hdcomps⟩
  · exact Or.inl (herrors.trans_le (errorCount_mono heq))
  have hsame : Failed answers (seen ++ [e]) st := by
    refine Or.inr ⟨hnonneg, made, done, d, hholding, hfull, fun comps hmem => ?_,
      List.mem_append_left _ hd, hdne, hmissing, hdcomps⟩
    rw [List.map_append]
    exact List.mem_append_left _ (hmade comps hmem)
  unfold Suits at hsuits
  cases hkind : e.kind with
  | dir =>
    rw [hkind] at hsuits
    dsimp only at hsuits
    subst hsuits
    by_cases hroot : e.comps = []
    · rw [he.callback_root hroot] at heq
      exact Option.some.inj heq ▸ hsame
    · obtain ⟨init, x, hcomps, -, -⟩ := he.comps_concat hroot
      have hmkdir : vfsMkdir st.1 (absolute e.comps) = some (-1, st.1) :=
        hholding.tree.createAt_full hfull (fun _ _ _ => rfl) _
      rw [he.callback_dir hcomps, hmkdir, Option.map_some, if_neg (by norm_num)] at heq
      exact Option.some.inj heq ▸ hsame
  | file flag0 content =>
    rw [hkind] at hsuits
    obtain ⟨-, f, rfl, -⟩ := hsuits
    have hne : e.comps ≠ [] := by
      intro hroot
      have hdir := (he.root_dir hroot).1
      rw [hkind] at hdir
      cases hdir
    have hopen := open_full hholding hfull he.component hne fun hmem => hnew (hmade _ hmem)
    rw [he.callback_file hkind, extractFile] at heq
    dsimp only at heq
    rw [makeParent_full hholding.tree hfull, Option.bind_some, hopen, Option.bind_some,
      if_pos (by norm_num)] at heq
    obtain rfl := Option.some.inj heq
    exact Or.inl (Int.lt_add_one_of_le hnonneg)

end entry

/-! ## The whole archive -/

section archive

variable {free : ℕ} {es : List Entry}

/-- What the members so far have come to. -/
def Outcome (answers : ℕ → UInt64) (free : ℕ) (seen : List Entry)
    (st : Option (Vfs × ExtractContext)) : Prop :=
  (Fits free seen → ∃ t, st = some t ∧ Good answers free seen t) ∧
    (¬ Fits free seen → ∀ t, st = some t → Failed answers seen t)

theorem Fits.of_concat {seen : List Entry} {e : Entry} (h : Fits free (seen ++ [e])) :
    Fits free seen := by
  unfold Fits NodesFit PagesFit at h ⊢
  rw [sum_concat, sum_concat] at h
  omega

theorem Outcome.step (hfresh : FreshAnswers answers) (hfree : ∀ i, answers i ≠ 0 ↔ i < free)
    {seen : List Entry} {e : Entry} {st : Option (Vfs × ExtractContext)}
    (h : Outcome answers free seen st) (he : e.WellFormed)
    (hparent : ∀ init x, e.comps = init ++ [x] → init ≠ [] →
      ∃ d ∈ seen, d.comps = init ∧ d.kind = .dir)
    (hnew : e.comps ∉ seen.map Entry.comps) {tar : Memory} {c : Call}
    (hc : CallFor tar e.member c) :
    Outcome answers free (seen ++ [e]) (rootfsCall answers tar c st).2 := by
  obtain ⟨data, hsuits, hcall⟩ := rootfsCall_of_callFor answers he hc
  rw [hcall]
  constructor
  · intro hfits
    obtain ⟨s, rfl, hgood⟩ := h.1 hfits.of_concat
    obtain ⟨t, ht, hnext, -⟩ := hgood.step hfresh hfree he hparent hnew hsuits
    exact ⟨t, ht, hnext hfits⟩
  · intro hshort t ht
    obtain ⟨s, rfl, hs⟩ := Option.bind_eq_some_iff.mp ht
    by_cases hfits : Fits free seen
    · obtain ⟨s', heq, hgood⟩ := h.1 hfits
      obtain rfl := Option.some.inj heq
      obtain ⟨t', ht', -, hfailed⟩ := hgood.step hfresh hfree he hparent hnew hsuits
      obtain rfl := Option.some.inj (hs.symm.trans ht')
      exact hfailed hshort
    · exact (h.2 hfits s rfl).step he hnew hsuits hs

/-- The rest of the members, after those that went well or wrong. -/
theorem Outcome.run (hfresh : FreshAnswers answers) (hfree : ∀ i, answers i ≠ 0 ↔ i < free)
    {tar : Memory} {seen rest : List Entry} (hes : WellFormed (seen ++ rest)) {calls : List Call}
    (hcalls : List.Forall₂ (CallFor tar) (rest.map Entry.member) calls)
    {st : Option (Vfs × ExtractContext)} (h : Outcome answers free seen st) :
    Outcome answers free (seen ++ rest)
      (calls.foldl (fun st c => (rootfsCall answers tar c st).2) st) := by
  induction rest generalizing seen calls st with
  | nil =>
    cases hcalls
    rwa [List.append_nil]
  | cons e rest ih =>
    rw [List.map_cons] at hcalls
    cases hcalls with
    | cons hc hrest =>
      rename_i c calls
      have he := hes.entries e (List.mem_append_right _ List.mem_cons_self)
      have hnew : e.comps ∉ seen.map Entry.comps := by
        have hdistinct := hes.distinct
        rw [List.map_append, List.map_cons] at hdistinct
        exact fun hold => (List.nodup_append.mp hdistinct).2.2 _ hold _ List.mem_cons_self rfl
      have hnext := h.step hfresh hfree he (hes.parents seen e rest rfl) hnew hc
      have hsplit : seen ++ e :: rest = seen ++ [e] ++ rest := by simp
      rw [hsplit] at hes ⊢
      exact ih hes hrest hnext

/-! ## The statement -/

theorem Good.readsBack {st : Vfs × ExtractContext} (h : Good answers free es st)
    (hes : WellFormed es) : ∀ e ∈ es, ReadsBack st.1 e := by
  intro e he
  have hcomps := (hes.entries e he).component
  have hopen {n : ℕ} (hn : walk (ramfsFinddir st.1) 0 e.comps = some n) :
      vfsResolvePath st.1 (absolute e.comps) = .node n ∧
        vfsOpen st.1 (absolute e.comps) 0 = some (3, st.1.setFd 3 ⟨some n, 0, 0, 1⟩) := by
    have hresolve : vfsResolvePath st.1 (absolute e.comps) = .node n := by
      rw [h.holding.tree.resolve_absolute hcomps, hn]
      rfl
    have happend : ¬ (0 : UInt32) &&& oAppend ≠ 0 := by decide
    refine ⟨hresolve, ?_⟩
    rw [vfsOpen, hresolve]
    dsimp only
    rw [openNode, freeFd_closed h.holding.closed]
    dsimp only
    rw [if_neg happend]
    rfl
  cases hkind : e.kind with
  | dir =>
    obtain ⟨n, hn, hdir⟩ := h.holding.dirs e he hkind
    refine ⟨n, 3, _, (hopen hn).1, (hopen hn).2, by norm_num, ?_⟩
    rw [hkind]
    exact hdir
  | file flag0 content =>
    obtain ⟨n, k, base, hn, hstored⟩ := h.holding.files e he flag0 content hkind
    refine ⟨n, 3, _, (hopen hn).1, (hopen hn).2, by norm_num, ?_⟩
    rw [hkind]
    intro count hcount
    have hopened : Stored answers (st.1.setFd 3 ⟨some n, 0, 0, 1⟩) n content k base :=
      hstored.mono rfl rfl le_rfl le_rfl fun _ _ => rfl
    have hops : ((st.1.setFd 3 ⟨some n, 0, 0, 1⟩).ramfsNodePool n).ops = some .ramfs :=
      h.holding.tree.ops n (h.holding.tree.walk_lt hn)
    rw [vfsRead, liveFd_opened st.1 (by norm_num)]
    dsimp only [Option.bind_some]
    rw [hops]
    dsimp only
    rw [hopened.read hcount]
    exact ⟨_, rfl⟩

theorem Failed.not_readsBack {st : Vfs × ExtractContext} (h : Failed answers es st) :
    ¬ (st.2.errorCount = 0 ∧ ∀ e ∈ es, ReadsBack st.1 e) := by
  rintro ⟨herrors, hread⟩
  rcases h with hpos | ⟨-, made, done, e, hholding, -, -, he, hne, hmissing, hcomps⟩
  · exact hpos.ne' herrors
  · obtain ⟨n, -, -, hresolve, -⟩ := hread e he
    rw [hholding.tree.resolve_absolute hcomps, hholding.walk_none hne hmissing] at hresolve
    cases hresolve

/-- A fresh root, before the first member. -/
theorem outcome_root (frames : UInt64 → ℕ → UInt8) :
    Outcome answers free [] (some (ramfsRoot frames, ⟨0, 0, 0⟩)) := by
  have hfits : Fits free [] := ⟨by decide, Nat.zero_le _⟩
  have htree := oneTree_ramfsRoot frames
  refine ⟨fun _ => ⟨_, rfl, ⟨?_, rfl, rfl, rfl, hfits⟩⟩, fun hnot => absurd hfits hnot⟩
  exact {
    tree := htree
    closed := fun _ => rfl
    count_le := show 1 ≤ maxRamfsNodes by decide
    blocks := Nat.zero_lt_one
    reached := fun comps n hn => by
      cases comps with
      | nil => exact Or.inl rfl
      | cons x xs =>
        obtain ⟨m, hm, -⟩ := Option.bind_eq_some_iff.mp hn
        obtain ⟨-, i, -, hc, -⟩ := htree.finddir_slot hm
        rw [ramfsRoot_data] at hc
        cases hc
    dirs := fun e he => by cases he
    files := fun e he => by cases he }

/-- The members of well-formed entries. -/
theorem WellFormed.valid (hes : WellFormed es) : ∀ m ∈ es.map Entry.member, m.Valid := by
  intro m hm
  obtain ⟨e, he, rfl⟩ := List.mem_map.mp hm
  exact (hes.entries e he).valid

theorem WellFormed.callFor (hes : WellFormed es) {trailer : List UInt8}
    (hlen : (encode (es.map Entry.member) trailer).length < 2 ^ 63) :
    List.Forall₂ (CallFor (archive (es.map Entry.member) trailer)) (es.map Entry.member)
      (memberCalls 0 (es.map Entry.member)) := by
  apply (forall₂_memberCalls _ hes.valid (holds_archive hlen)).mpr
  intro m hm
  obtain ⟨e, he, rfl⟩ := List.mem_map.mp hm
  exact ⟨rfl, (hes.entries e he).name_length⟩

/-- The whole walk. -/
theorem tarExtractAll_outcome (hfresh : FreshAnswers answers) (hfree : ∀ i, answers i ≠ 0 ↔ i < free)
    (hes : WellFormed es) {trailer : List UInt8}
    (hlen : (encode (es.map Entry.member) trailer).length < 2 ^ 63) (frames : UInt64 → ℕ → UInt8) :
    ∃ fuel log st, tarExtractAll (archive (es.map Entry.member) trailer)
        (UInt64.ofNat (encode (es.map Entry.member) trailer).length)
        (some (rootfsCall answers (archive (es.map Entry.member) trailer))) fuel
        (some (ramfsRoot frames, ⟨0, 0, 0⟩)) = some (0, log, st) ∧
      Outcome answers free es st := by
  obtain ⟨log, heq, -, -⟩ := tarExtractAll_encode
    (f := rootfsCall answers (archive (es.map Entry.member) trailer)) (fun _ _ => rfl) hes.valid hlen
    (some (ramfsRoot frames, ⟨0, 0, 0⟩)) (Nat.lt_succ_self _)
  refine ⟨_, log, _, heq, ?_⟩
  have hstart : Outcome answers free [] (some (ramfsRoot frames, ⟨0, 0, 0⟩)) := outcome_root frames
  have hall : WellFormed ([] ++ es) := hes
  exact hstart.run hfresh hfree hall (hes.callFor hlen)

theorem not_installs (hfresh : FreshAnswers answers) (hfree : ∀ i, answers i ≠ 0 ↔ i < free)
    (hes : WellFormed es) {trailer : List UInt8}
    (hlen : (encode (es.map Entry.member) trailer).length < 2 ^ 63) (frames : UInt64 → ℕ → UInt8)
    (hshort : ¬ Fits free es) : ¬ Installs answers es trailer frames := by
  rintro ⟨fuel, log, s, ctx, heq, hresult⟩
  obtain ⟨fuel', log', st, heq', -, hfailed⟩ :=
    tarExtractAll_outcome hfresh hfree hes hlen frames
  have hsame := congrArg (fun r => r.2.2) (tarExtractAll_unique heq' heq)
  exact (hfailed hshort _ hsame).not_readsBack hresult

/-- An archive is installed exactly when its directories, its files and one node for each file
below a directory are no more than the nodes, and its pages, 128 for an empty file, are no more than
those that are free. -/
theorem installs_iff (hfresh : FreshAnswers answers) (hfree : ∀ i, answers i ≠ 0 ↔ i < free)
    (hes : WellFormed es) {trailer : List UInt8}
    (hlen : (encode (es.map Entry.member) trailer).length < 2 ^ 63) (frames : UInt64 → ℕ → UInt8) :
    Installs answers es trailer frames ↔ NodesFit es ∧ PagesFit free es := by
  constructor
  · intro h
    by_contra hshort
    exact not_installs hfresh hfree hes hlen frames hshort h
  · intro hfits
    obtain ⟨fuel, log, st, heq, hgood, -⟩ := tarExtractAll_outcome hfresh hfree hes hlen frames
    obtain ⟨⟨s, ctx⟩, rfl, hdone⟩ := hgood hfits
    exact ⟨fuel, log, s, ctx, heq, hdone.errors, hdone.readsBack hes⟩

end archive

/-! ## A directory with a file, and an empty file -/

/-- The header fields that nobody reads are those of `plain`. -/
def plainEntry (comps : List Str) (trailing : Bool) (kind : Kind) (chksum : List UInt8) : Entry where
  lead := .dot
  comps := comps
  trailing := trailing
  kind := kind
  mode := (plain [] [] kind chksum).mode
  sizeEnd := 0
  times := (plain [] [] kind chksum).times
  owner := (plain [] [] kind chksum).owner

/-- `./d/`. -/
def directoryEntry : Entry := plainEntry [[0x64]] true .dir [0x30, 0x30, 0x37, 0x35, 0x34, 0x34]

/-- `./d/a`, with two bytes. -/
def fileEntry : Entry :=
  plainEntry [[0x64], [0x61]] false (.file true [0x68, 0x69]) [0x30, 0x30, 0x37, 0x37, 0x30, 0x32]

/-- `./a`, without a byte. -/
def emptyEntry : Entry :=
  plainEntry [[0x61]] false (.file true []) [0x30, 0x30, 0x37, 0x34, 0x35, 0x35]

theorem plainEntry_wellFormed {comps : List Str} {trailing : Bool} {kind : Kind}
    {chksum : List UInt8}
    (hname : (plainEntry comps trailing kind chksum).name.length < 100 ∧
      0 ∉ (plainEntry comps trailing kind chksum).name)
    (hcontent : kind.content.length ≤ 512) (hcomps : ∀ x ∈ comps, Component x)
    (hdot : ∀ x ∈ comps, x ≠ str ".") (hne : comps ≠ []) (htrailing : trailing = true → kind = .dir)
    (hchksum : chksum.length = 6 ∧ ∀ b ∈ chksum, 0x30 ≤ b ∧ b ≤ 0x37) :
    (plainEntry comps trailing kind chksum).WellFormed where
  valid := plain_valid ⟨List.cons_ne_nil _ _, hname.1.le, hname.2⟩ ⟨Nat.zero_le _, List.not_mem_nil⟩
    (hcontent.trans_lt (by norm_num)) hchksum
  name_length := hname.1
  component := hcomps
  no_dot := hdot
  root_dir hroot := absurd hroot hne
  trailing_dir := htrailing
  content_length := hcontent.trans (by norm_num)

theorem component_letter {c : UInt8} (hc : c ≠ slash) : Component [c] where
  nonempty := List.cons_ne_nil _ _
  no_slash hmem := hc (List.mem_singleton.mp hmem).symm
  length_le := by simp

theorem wellFormed_directory : WellFormed [directoryEntry, fileEntry] where
  entries := by
    have hd : Component [0x64] := component_letter (by decide)
    have ha : Component [0x61] := component_letter (by decide)
    have hdirectory : directoryEntry.WellFormed :=
      plainEntry_wellFormed (by decide) (Nat.zero_le _) (by simpa using hd) (by decide) (by decide)
        (fun _ => rfl) (by simp)
    have hfile : fileEntry.WellFormed :=
      plainEntry_wellFormed (by decide) (by decide) (by simpa using ⟨hd, ha⟩) (by decide) (by decide)
        (fun h => by cases h) (by simp)
    simpa using ⟨hdirectory, hfile⟩
  distinct := by decide
  parents pre e post heq init x hcomps hinit := by
    have hmem : e ∈ [directoryEntry, fileEntry] := by rw [heq]; simp
    have hlength := congrArg List.length hcomps
    rcases List.mem_pair.mp hmem with rfl | rfl
    · -- `d` lies in the root
      rw [List.length_append] at hlength
      have hzero : init.length = 0 := by simpa [directoryEntry, plainEntry] using hlength
      exact absurd (List.length_eq_zero_iff.mp hzero) hinit
    · obtain ⟨rfl, -⟩ := List.append_inj' (show [[0x64]] ++ [[0x61]] = init ++ [x] from hcomps) rfl
      cases pre with
      | nil =>
        have hfirst := congrArg Entry.comps (List.cons.inj heq).1
        cases hfirst
      | cons d pre =>
        obtain ⟨rfl, -⟩ := List.cons.inj heq
        exact ⟨directoryEntry, List.mem_cons_self, rfl, rfl⟩
  few := by decide

theorem installs_directory :
    Installs (lowFrames 1) [directoryEntry, fileEntry] [] fun _ _ => 0 := by
  have hes := wellFormed_directory
  have hlen : (encode ([directoryEntry, fileEntry].map Entry.member) []).length < 2 ^ 63 := by
    apply length_encode_archive hes.valid _ (by decide)
    simp [directoryEntry, fileEntry, plainEntry, Entry.member, Kind.content]
  have hone : 1 ≤ 2 ^ 32 := by norm_num
  exact (installs_iff (lowFrames_fresh hone) (lowFrames_ne_zero hone) hes hlen _).mpr (by decide)

/-- An empty file needs 128 pages. -/
theorem empty_file_fails :
    WellFormed [emptyEntry] ∧
      ¬ Installs (lowFrames 127) [emptyEntry] [] fun _ _ => 0 := by
  have ha : Component [0x61] := component_letter (by decide)
  have hempty : emptyEntry.WellFormed :=
    plainEntry_wellFormed (by decide) (Nat.zero_le _) (by simpa using ha) (by decide) (by decide)
      (fun h => by cases h) (by simp)
  have hes : WellFormed [emptyEntry] := {
    entries := by simpa using hempty
    distinct := by decide
    parents := fun pre e post heq init x hcomps hinit => by
      have hmem : e ∈ [emptyEntry] := by rw [heq]; simp
      obtain rfl := List.mem_singleton.mp hmem
      have hlength := congrArg List.length hcomps
      rw [List.length_append] at hlength
      have hzero : init.length = 0 := by simpa [emptyEntry, plainEntry] using hlength
      exact absurd (List.length_eq_zero_iff.mp hzero) hinit
    few := by decide }
  have hlen : (encode ([emptyEntry].map Entry.member) []).length < 2 ^ 63 := by
    apply length_encode_archive hes.valid _ (by decide)
    simp [emptyEntry, plainEntry, Entry.member, Kind.content]
  have hfew : 127 ≤ 2 ^ 32 := by norm_num
  have hshort : ¬ Fits 127 [emptyEntry] := fun hfits => absurd hfits.2 (by decide)
  exact ⟨hes, not_installs (lowFrames_fresh hfew) (lowFrames_ne_zero hfew) hes hlen _ hshort⟩

end Rhoudveine.Tar
