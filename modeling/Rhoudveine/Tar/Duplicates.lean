import Rhoudveine.Fs.Paths
import Rhoudveine.Tar.Rootfs

/-!
# Names that are there already

`ramfs_create` does not look for the name of the new node, and `rootfs_extract_callback` makes the
directory of a file once for each file in it.
-/

namespace Rhoudveine.Tar
open Search
open Fs hiding Holds

variable {answers : ℕ → UInt64} {s s' : Vfs}

/-! ## Calls -/

/-- The calls that create nodes. -/
inductive BuildCall
  | mount (path fstype : Str)
  | mkdir (path : Str)
  | create (path : Str)
  | extract (filename : Str) (data : Option (ℕ → UInt8)) (size : UInt64)

/-- One call; `none` if it crashes. -/
def buildStep (answers : ℕ → UInt64) (st : Vfs × ExtractContext) :
    BuildCall → Option (Vfs × ExtractContext)
  | .mount path fstype => (vfsMount st.1 path fstype).map fun out => (out.2, st.2)
  | .mkdir path => (vfsMkdir st.1 path).map fun out => (out.2, st.2)
  | .create path => (vfsCreate st.1 path).map fun out => (out.2, st.2)
  | .extract filename data size => rootfsExtractCallback answers filename data size st

/-- No two occupied slots of a directory carry the same name. -/
def NoDuplicates (s : Vfs) : Prop :=
  ∀ d b, d < s.ramfsNodeCount → (s.ramfsNodePool d).isDir → (s.ramfsNodePool d).fsData = .dir b →
    ∀ i < ramfsMaxChildren, ∀ j < ramfsMaxChildren,
      (s.ramfsDataPool b).children i ≠ none → (s.ramfsDataPool b).children j ≠ none →
      (s.ramfsDataPool b).childNames i = (s.ramfsDataPool b).childNames j → i = j

/-- If the directory of the path is there and has room, its slots do not carry the name of the
path, cut to 31 bytes. -/
def NewName (s : Vfs) (path : Str) : Prop :=
  ∀ d b, vfsResolvePath s (vfsDirname path) = .node d → (s.ramfsNodePool d).isDir →
    (s.ramfsNodePool d).fsData = .dir b → s.ramfsNodeCount < maxRamfsNodes →
    (∃ i < ramfsMaxChildren, (s.ramfsDataPool b).children i = none) →
    ∀ i < ramfsMaxChildren, (s.ramfsDataPool b).children i ≠ none →
      (s.ramfsDataPool b).childNames i ≠ (vfsBasename path).take 31

/-- The path that `rootfs_extract_callback` works on, unless it returns at once. -/
def extractPath (filename : Str) : Option Str :=
  if filename = [] ∨ filename = str "." ∨ filename = str "./" then none
  else some (abspath (if filename.take 2 = str "./" then filename.drop 2 else filename))

/-- The directory that the callback makes for a directory member. -/
def memberDir (path : Str) : Option Str :=
  let dirname := path.take 255
  let dirname := if dirname.getLast? = some slash then dirname.dropLast else dirname
  if dirname = [] ∨ dirname = str "." ∨ dirname = str "/" then none else some dirname

/-- The directory that the callback makes for a file member. -/
def parentDir (path : Str) : Option Str :=
  match lastSlash (path.take 255) with
  | none => none
  | some i => if i = 0 then none else some ((path.take 255).take i)

/-- The names that the call creates are new. -/
def NewNames (s : Vfs) : BuildCall → Prop
  | .mount _ _ => True
  | .mkdir path => NewName s path
  | .create path => NewName s path
  | .extract filename none _ =>
    ∀ path ∈ extractPath filename, ∀ dirname ∈ memberDir path, NewName s dirname
  | .extract filename (some _) _ =>
    ∀ path ∈ extractPath filename, (∀ parent ∈ parentDir path, NewName s parent) ∧
      -- `vfs_open` creates the file unless it is there
      ∀ s', makeParent path s = some s' → vfsResolvePath s' path = .null → NewName s' path

/-! ## One new node -/

theorem noDuplicates_init (frames : UInt64 → ℕ → UInt8) : NoDuplicates (vfsInit frames) :=
  fun _ _ hd => absurd hd (Nat.not_lt_zero _)

theorem noDuplicates_sameTree (ht : SameTree s s') : NoDuplicates s' ↔ NoDuplicates s := by
  unfold NoDuplicates
  rw [ht.count, ht.data]
  apply forall_congr'
  intro d
  apply forall_congr'
  intro b
  apply forall_congr'
  intro _
  rw [ht.isDir_iff]
  constructor
  · intro h hdir hb
    exact h hdir ((ht.dir_data d hdir).trans hb)
  · intro h hdir hb
    exact h hdir ((ht.dir_data d hdir).symm.trans hb)

/-- With room in the directory the creation succeeds. -/
theorem ramfsCreate_ok {parent b : ℕ} {name : Str} {flags : UInt32}
    (hdir : (s.ramfsNodePool parent).isDir) (hb : (s.ramfsNodePool parent).fsData = .dir b)
    (hroom : s.ramfsNodeCount < maxRamfsNodes)
    (hfree : ∃ i < ramfsMaxChildren, (s.ramfsDataPool b).children i = none) :
    (ramfsCreate s parent name flags).1 = 0 := by
  obtain ⟨i, hi, hnone⟩ := hfree
  cases hslot : firstSome (fun i => if (s.ramfsDataPool b).children i = none then some i else none)
      ramfsMaxChildren 0 with
  | none =>
    have hskip := firstSome_eq_none.mp hslot i (Nat.zero_le i) (by omega)
    rw [if_pos hnone] at hskip
    cases hskip
  | some slot =>
    simp only [ramfsCreate, not_not.mpr hdir, if_false, hb, hslot, ramfsAllocNode,
      if_neg (Nat.not_le.mpr hroom)]

theorem noDuplicates_created (h : Planted s) (hs : NoDuplicates s) {parent : ℕ} {name : Str}
    {flags : UInt32} (hc : Created s parent name flags s') :
    NoDuplicates s' ↔ ∀ i < ramfsMaxChildren, (s.ramfsDataPool parent).children i ≠ none →
      (s.ramfsDataPool parent).childNames i ≠ name.take 31 := by
  have h' := h.created hc
  obtain ⟨hdir, hdata, hfree, -, hslot, -⟩ := hc
  rename_i p slot
  obtain ⟨hp, hown⟩ := h.dir_data hdir
  obtain rfl : parent = p := FsData.dir.inj (hown.symm.trans hdata)
  have hparent : (enterChild s parent slot name flags).ramfsDataPool parent = _ :=
    enterChild_parent hp
  have hne (i : ℕ) (hi : (s.ramfsDataPool parent).children i ≠ none) : i ≠ slot := by
    rintro rfl
    exact hi hfree
  constructor
  · -- an old entry of the name and the new one would be two
    intro hnodup i hi hsome hname
    have hi' := hne i hsome
    have hdir' : ((enterChild s parent slot name flags).ramfsNodePool parent).isDir := by
      rw [enterChild_old (Nat.ne_of_lt hp)]
      exact hdir
    have heq := hnodup parent parent (hp.trans (Nat.lt_succ_self _)) hdir' (h'.dir_data hdir').2
      i hi slot hslot
    rw [hparent] at heq
    simp only [Function.update_self, Function.update_of_ne hi', ne_eq, reduceCtorEq,
      not_false_eq_true, forall_const] at heq
    exact hi' (heq hsome hname)
  · intro hnew d b hd hdir' hb i hi j hj hci hcj hname
    obtain rfl : d = b := FsData.dir.inj ((h'.dir_data hdir').2.symm.trans hb)
    -- only the table of the parent has changed, and a new directory is empty
    by_cases hdp : d = parent
    · subst hdp
      rw [hparent] at hci hcj hname
      dsimp only at hci hcj hname
      by_cases hislot : i = slot
      · by_cases hjslot : j = slot
        · rw [hislot, hjslot]
        · rw [Function.update_of_ne hjslot] at hcj hname
          rw [hislot, Function.update_self] at hname
          exact absurd hname.symm (hnew j hj hcj)
      · rw [Function.update_of_ne hislot] at hci hname
        by_cases hjslot : j = slot
        · rw [hjslot, Function.update_self] at hname
          exact absurd hname (hnew i hi hci)
        · rw [Function.update_of_ne hjslot] at hcj hname
          exact hs d d hp hdir hown i hi j hj hci hcj hname
    · by_cases hnew' : d = s.ramfsNodeCount
      · rw [hnew', enterChild_newDir hp] at hci
        exact absurd rfl hci
      · rw [enterChild_oldDir hnew' hdp] at hci hcj hname
        rw [enterChild_old hnew'] at hdir' hb
        exact hs d d (h.dir_data hdir').1 hdir' hb i hi j hj hci hcj hname

/-- A call of `vfs_create` or `vfs_mkdir` keeps the names apart exactly when its name is new. -/
theorem noDuplicates_createAt (h : Planted s) (hs : NoDuplicates s)
    {op : Vfs → ℕ → Str → ℤ × Vfs} {flags : UInt32}
    (hop : ∀ s parent name, op s parent name = ramfsCreate s parent name flags) {path : Str} {r : ℤ}
    (hmade : createAt op s path = some (r, s')) : NoDuplicates s' ↔ NewName s path := by
  rcases createAt_cases hop hmade with ⟨rfl, rfl⟩ | ⟨rfl, parent, hres, hc⟩
  · apply iff_of_true hs
    intro d b hres hdir hb hroom hfree
    have hok : createAt op s' path = some (op s' d (vfsBasename path)) := by
      simp only [createAt, hres, h.ops d (h.dir_data hdir).1]
    have hzero : (ramfsCreate s' d (vfsBasename path) flags).1 = 0 :=
      ramfsCreate_ok hdir hb hroom hfree
    rw [hok, hop, Option.some.injEq] at hmade
    rw [hmade] at hzero
    cases hzero
  · rw [noDuplicates_created h hs hc]
    obtain ⟨hdir, hdata, hnone, -, hslot, hroom⟩ := hc
    rename_i p slot
    obtain ⟨hp, hown⟩ := h.dir_data hdir
    obtain rfl : parent = p := FsData.dir.inj (hown.symm.trans hdata)
    constructor
    · intro hnew d b hd _ hb _ _
      obtain rfl := Resolved.node.inj (hres.symm.trans hd)
      obtain rfl : parent = b := FsData.dir.inj (hown.symm.trans hb)
      exact hnew
    · intro hnew
      exact hnew parent parent hres hdir hown hroom ⟨slot, hslot, hnone⟩

theorem noDuplicates_mounted (h : Planted s) (hs : NoDuplicates s) {path : Str} {r : ℤ}
    (hm : Mounted s path r s') : NoDuplicates s' := by
  have h' := h.mounted hm
  -- every block is empty or was there before
  have hdata (d : ℕ) : (s'.ramfsDataPool d).children = (fun _ => none) ∨
      s'.ramfsDataPool d = s.ramfsDataPool d ∧
        ((s'.ramfsNodePool d).isDir → (s.ramfsNodePool d).isDir) := by
    have halloc : ((allocRoot s path).ramfsDataPool d).children = (fun _ => none) ∨
        (allocRoot s path).ramfsDataPool d = s.ramfsDataPool d ∧
          (((allocRoot s path).ramfsNodePool d).isDir → (s.ramfsNodePool d).isDir) := by
      by_cases hnew : d = s.ramfsNodeCount
      · have hempty := addNode_newDir s (newNode s [slash] vfsDirectory)
        rw [← hnew] at hempty
        exact Or.inl (congrArg DirData.children hempty)
      · have hold := addNode_old s (newNode s [slash] vfsDirectory) hnew
        exact Or.inr ⟨addNode_oldDir s _ hnew, fun hdir => hold ▸ hdir⟩
    cases hm with
    | refused => exact Or.inr ⟨rfl, id⟩
    | noRoot => exact Or.inr ⟨rfl, id⟩
    | noPlace => exact halloc
    | root =>
      refine halloc.imp_right fun hsame => ⟨hsame.1, fun hdir => hsame.2 ?_⟩
      exact (isDir_linkMount { allocRoot s path with gVfsRoot := some s.ramfsNodeCount } _ _ d).mp
        hdir
    | dir =>
      refine halloc.imp_right fun hsame => ⟨hsame.1, fun hdir => hsame.2 ?_⟩
      exact (isDir_linkMount (allocRoot s path) _ _ d).mp hdir
  intro d b hd hdir hb i hi j hj hci hcj hname
  obtain rfl : d = b := FsData.dir.inj ((h'.dir_data hdir).2.symm.trans hb)
  rcases hdata d with hempty | ⟨hsame, hold⟩
  · rw [hempty] at hci
    exact absurd rfl hci
  · rw [hsame] at hci hcj hname
    obtain ⟨hlt, hown⟩ := h.dir_data (hold hdir)
    exact hs d d hlt (hold hdir) hown i hi j hj hci hcj hname

/-- The names that are there stay. -/
theorem noDuplicates_of_created (h : Planted s) {parent : ℕ} {name : Str} {flags : UInt32}
    (hc : Created s parent name flags s') (hs' : NoDuplicates s') : NoDuplicates s := by
  obtain ⟨hdir, hdata, hfree, -, -, -⟩ := hc
  rename_i p slot
  obtain ⟨hp, hown⟩ := h.dir_data hdir
  obtain rfl : parent = p := FsData.dir.inj (hown.symm.trans hdata)
  intro d b hd hdir' hb i hi j hj hci hcj hname
  obtain rfl : d = b := FsData.dir.inj ((h.dir_data hdir').2.symm.trans hb)
  have hold : (enterChild s parent slot name flags).ramfsNodePool d = s.ramfsNodePool d :=
    enterChild_old (Nat.ne_of_lt hd)
  have hkeep := hs' d d (hd.trans (Nat.lt_succ_self _)) (by rwa [hold]) (by rwa [hold]) i hi j hj
  by_cases hdp : d = parent
  · subst hdp
    have hne (k : ℕ) (hk : (s.ramfsDataPool d).children k ≠ none) : k ≠ slot := by
      rintro rfl
      exact hk hfree
    rw [enterChild_parent hp] at hkeep
    simp only [Function.update_of_ne (hne i hci), Function.update_of_ne (hne j hcj)] at hkeep
    exact hkeep hci hcj hname
  · rw [enterChild_oldDir (Nat.ne_of_lt hd) hdp] at hkeep
    exact hkeep hci hcj hname

theorem noDuplicates_of_open (h : Planted s) {path : Str} {flags : UInt32} {r : ℤ}
    (hopen : vfsOpen s path flags = some (r, s')) (hs' : NoDuplicates s') : NoDuplicates s := by
  rcases vfsOpen_created hopen with ht | ⟨parent, name, t, hc, ht⟩
  · exact (noDuplicates_sameTree ht).mp hs'
  · exact noDuplicates_of_created h hc ((noDuplicates_sameTree ht).mp hs')

/-! ## The callback -/

theorem vfsCreate_noDuplicates (h : Planted s) (hs : NoDuplicates s) {path : Str} {r : ℤ}
    (hmade : vfsCreate s path = some (r, s')) : NoDuplicates s' ↔ NewName s path :=
  noDuplicates_createAt h hs (fun _ _ _ => rfl) hmade

theorem vfsMkdir_noDuplicates (h : Planted s) (hs : NoDuplicates s) {path : Str} {r : ℤ}
    (hmade : vfsMkdir s path = some (r, s')) : NoDuplicates s' ↔ NewName s path :=
  noDuplicates_createAt h hs (fun _ _ _ => rfl) hmade

/-- `vfs_open` creates a file only if its path does not resolve. -/
theorem vfsOpen_noDuplicates (h : Planted s) (hs : NoDuplicates s) {path : Str} {flags : UInt32}
    (hcreat : flags &&& oCreat ≠ 0) {r : ℤ} (hopen : vfsOpen s path flags = some (r, s')) :
    NoDuplicates s' ↔ (vfsResolvePath s path = .null → NewName s path) := by
  unfold vfsOpen at hopen
  cases hres : vfsResolvePath s path with
  | crash => simp [hres] at hopen
  | node node =>
    simp only [hres, Option.some.injEq] at hopen
    have htree := openNode_sameTree s node flags
    rw [hopen] at htree
    rw [noDuplicates_sameTree htree]
    exact iff_of_true hs fun hnull => by cases hnull
  | null =>
    simp only [hres, if_neg hcreat] at hopen
    have hthen : (Resolved.null = .null → NewName s path) ↔ NewName s path :=
      ⟨fun h => h rfl, fun h _ => h⟩
    rw [hthen]
    cases hmade : vfsCreate s path with
    | none => simp [hmade] at hopen
    | some out =>
      obtain ⟨q, t⟩ := out
      rw [← vfsCreate_noDuplicates h hs hmade]
      simp only [hmade] at hopen
      by_cases hq : q ≠ 0
      · rw [if_pos hq] at hopen
        cases hopen
        exact Iff.rfl
      · rw [if_neg hq] at hopen
        cases hagain : vfsResolvePath t path with
        | crash => simp [hagain] at hopen
        | null =>
          simp only [hagain, Option.some.injEq, Prod.mk.injEq] at hopen
          rw [hopen.2]
        | node node =>
          simp only [hagain, Option.some.injEq] at hopen
          have htree := openNode_sameTree t node flags
          rw [hopen] at htree
          exact noDuplicates_sameTree htree

theorem extractDirectory_noDuplicates {st st' : Vfs × ExtractContext} (h : Planted st.1)
    (hs : NoDuplicates st.1) {path : Str} (hex : extractDirectory path st = some st') :
    Planted st'.1 ∧
      (NoDuplicates st'.1 ↔ ∀ dirname ∈ memberDir path, NewName st.1 dirname) := by
  unfold extractDirectory at hex
  unfold memberDir
  dsimp only at hex ⊢
  generalize (if (path.take 255).getLast? = some slash then (path.take 255).dropLast
    else path.take 255) = dirname at hex ⊢
  split at hex
  · rename_i hskip
    rw [if_pos hskip]
    obtain rfl := Option.some.inj hex
    exact ⟨h, iff_of_true hs (by simp)⟩
  · rename_i hskip
    rw [if_neg hskip]
    obtain ⟨⟨r, s'⟩, hmade, rfl⟩ := Option.map_eq_some_iff.mp hex
    refine ⟨h.changed (createAt_changed (fun _ _ _ => rfl) hmade), ?_⟩
    rw [vfsMkdir_noDuplicates h hs hmade]
    simp

theorem makeParent_noDuplicates (h : Planted s) (hs : NoDuplicates s) {path : Str}
    (hmade : makeParent path s = some s') :
    Planted s' ∧ (NoDuplicates s' ↔ ∀ parent ∈ parentDir path, NewName s parent) := by
  unfold makeParent at hmade
  unfold parentDir
  dsimp only at hmade
  cases hlast : lastSlash (path.take 255) with
  | none =>
    simp only [hlast, Option.some.injEq] at hmade
    subst hmade
    exact ⟨h, iff_of_true hs (by simp)⟩
  | some i =>
    simp only [hlast] at hmade ⊢
    by_cases hi : i = 0
    · rw [if_pos hi, Option.some.injEq] at hmade
      subst hmade
      exact ⟨h, iff_of_true hs (by simp [hi])⟩
    · rw [if_neg hi] at hmade
      obtain ⟨⟨r, t⟩, hmkdir, rfl⟩ := Option.map_eq_some_iff.mp hmade
      refine ⟨h.changed (createAt_changed (fun _ _ _ => rfl) hmkdir), ?_⟩
      rw [vfsMkdir_noDuplicates h hs hmkdir]
      simp [hi]

theorem extractFile_noDuplicates {st st' : Vfs × ExtractContext} (h : Planted st.1)
    (hs : NoDuplicates st.1) {path : Str} {data : ℕ → UInt8} {size : UInt64}
    (hex : extractFile answers path data size st = some st') :
    Planted st'.1 ∧
      (NoDuplicates st'.1 ↔ (∀ parent ∈ parentDir path, NewName st.1 parent) ∧
        ∀ s', makeParent path st.1 = some s' → vfsResolvePath s' path = .null →
          NewName s' path) := by
  unfold extractFile at hex
  dsimp only at hex
  obtain ⟨t, hparent, hex⟩ := Option.bind_eq_some_iff.mp hex
  obtain ⟨⟨fd, u⟩, hopen, hex⟩ := Option.bind_eq_some_iff.mp hex
  obtain ⟨ht, hmade⟩ := makeParent_noDuplicates h hs hparent
  have hu := ht.changed (vfsOpen_changed hopen)
  -- what follows touches no directory
  have hrest : SameTree u st'.1 := by
    dsimp only at hex
    split at hex
    · obtain rfl := Option.some.inj hex
      exact .refl u
    · obtain ⟨⟨n, v⟩, hwrite, rfl⟩ := Option.map_eq_some_iff.mp hex
      exact (vfsWrite_sameTree hwrite).trans (vfsClose_sameTree v fd)
  refine ⟨hu.sameTree hrest, ?_⟩
  rw [noDuplicates_sameTree hrest]
  have hafter (s' : Vfs) (hs' : makeParent path st.1 = some s') : s' = t :=
    Option.some.inj (hs'.symm.trans hparent)
  constructor
  · intro hnodup
    -- the names that are there stay
    have hkeep : NoDuplicates t := noDuplicates_of_open ht hopen hnodup
    refine ⟨hmade.mp hkeep, fun s' hs' => ?_⟩
    rw [hafter s' hs']
    exact (vfsOpen_noDuplicates ht hkeep (by decide) hopen).mp hnodup
  · rintro ⟨hnew, hfile⟩
    exact (vfsOpen_noDuplicates ht (hmade.mpr hnew) (by decide) hopen).mpr (hfile t hparent)

/-! ## Every run -/

theorem buildStep_noDuplicates {st st' : Vfs × ExtractContext} {c : BuildCall} (h : Planted st.1)
    (hs : NoDuplicates st.1) (hstep : buildStep answers st c = some st') :
    Planted st'.1 ∧ (NoDuplicates st'.1 ↔ NewNames st.1 c) := by
  cases c with
  | mount path fstype =>
    obtain ⟨⟨r, s'⟩, hm, rfl⟩ := Option.map_eq_some_iff.mp hstep
    have hm := vfsMount_cases hm
    exact ⟨h.mounted hm, iff_of_true (noDuplicates_mounted h hs hm) trivial⟩
  | mkdir path =>
    obtain ⟨⟨r, s'⟩, hmade, rfl⟩ := Option.map_eq_some_iff.mp hstep
    exact ⟨h.changed (createAt_changed (fun _ _ _ => rfl) hmade),
      vfsMkdir_noDuplicates h hs hmade⟩
  | create path =>
    obtain ⟨⟨r, s'⟩, hmade, rfl⟩ := Option.map_eq_some_iff.mp hstep
    exact ⟨h.changed (createAt_changed (fun _ _ _ => rfl) hmade),
      vfsCreate_noDuplicates h hs hmade⟩
  | extract filename data size =>
    change rootfsExtractCallback answers filename data size st = some st' at hstep
    unfold rootfsExtractCallback at hstep
    by_cases hskip : filename = [] ∨ filename = str "." ∨ filename = str "./"
    · rw [if_pos hskip] at hstep
      obtain rfl := Option.some.inj hstep
      have hnone : extractPath filename = none := if_pos hskip
      refine ⟨h, iff_of_true hs ?_⟩
      cases data <;> simp [NewNames, hnone]
    · rw [if_neg hskip] at hstep
      have hsome : extractPath filename =
          some (abspath (if filename.take 2 = str "./" then filename.drop 2 else filename)) :=
        if_neg hskip
      cases data with
      | none =>
        obtain ⟨h', hiff⟩ := extractDirectory_noDuplicates h hs hstep
        refine ⟨h', ?_⟩
        rw [hiff, NewNames, hsome]
        simp
      | some data =>
        obtain ⟨h', hiff⟩ := extractFile_noDuplicates h hs hstep
        refine ⟨h', ?_⟩
        rw [hiff, NewNames, hsome]
        simp

/-- Names stay apart throughout a run exactly when each call that ends creates new names only. -/
theorem noDuplicates_iff (answers : ℕ → UInt64) (frames : UInt64 → ℕ → UInt8)
    (ctx : ExtractContext) (calls : List BuildCall) :
    Always (buildStep answers)
        (fun st c => ∀ st', buildStep answers st c = some st' → NoDuplicates st'.1)
        (vfsInit frames, ctx) calls ↔
      Always (buildStep answers) (fun st c => buildStep answers st c ≠ none → NewNames st.1 c)
        (vfsInit frames, ctx) calls := by
  apply always_iff (I := fun st => Planted st.1 ∧ NoDuplicates st.1) (D := fun _ _ => True)
  · intro st c hinv _
    cases hstep : buildStep answers st c with
    | none => simp
    | some st' =>
      simpa using (buildStep_noDuplicates hinv.1 hinv.2 hstep).2
  · intro st c st' hinv _ hnew hstep
    obtain ⟨h', hiff⟩ := buildStep_noDuplicates hinv.1 hinv.2 hstep
    exact ⟨h', hiff.mpr (hnew (by simp [hstep]))⟩
  · exact ⟨Planted.init frames, noDuplicates_init frames⟩
  · exact Always.of_forall (fun _ _ => trivial) _ _

/-- Two directories `/etc`. -/
theorem etc_twice :
    ∃ st, Run (fun st c st' => buildStep (fun _ => 0) st c = some st')
        (vfsInit fun _ _ => 0, ⟨0, 0, 0⟩)
        [.mount (str "/") (str "ramfs"), .mkdir (str "/etc"), .mkdir (str "/etc")] st ∧
      ¬ NoDuplicates st.1 := by
  have hresult : (vfsMkdir withEtc (str "/etc")).map (fun out => decide
      ((out.2.ramfsNodePool 0).isDir ∧ (out.2.ramfsNodePool 0).fsData = .dir 0 ∧
        (out.2.ramfsDataPool 0).children 0 = some 1 ∧
        (out.2.ramfsDataPool 0).children 1 = some 2 ∧
        (out.2.ramfsDataPool 0).childNames 0 = (out.2.ramfsDataPool 0).childNames 1)) =
      some true := by
    decide +kernel
  obtain ⟨⟨r, s⟩, hmkdir, heq⟩ := Option.map_eq_some_iff.mp hresult
  obtain ⟨hdir, hdata, h₀, h₁, hname⟩ := of_decide_eq_true heq
  dsimp only at hdir hdata h₀ h₁ hname
  refine ⟨(s, ⟨0, 0, 0⟩), ?_, fun hnodup => ?_⟩
  · apply Run.cons (t := (rootOnly, ⟨0, 0, 0⟩))
    · rw [buildStep, ramfsRoot_mount]
      rfl
    · apply Run.cons (t := (withEtc, ⟨0, 0, 0⟩))
      · rw [buildStep, rootOnly_mkdir]
        rfl
      · apply Run.cons (t := (s, ⟨0, 0, 0⟩))
        · rw [buildStep, hmkdir]
          rfl
        · exact .nil _
  · have hpos : 0 < s.ramfsNodeCount := by
      rcases createAt_cases (fun _ _ _ => rfl) hmkdir with ⟨-, rfl⟩ | ⟨-, parent, -, hc⟩
      · decide +kernel
      · obtain ⟨-, -, -, -, -, -⟩ := hc
        exact Nat.succ_pos _
    have hsame := hnodup 0 0 hpos hdir hdata 0 (by decide) 1 (by decide) (by simp [h₀])
      (by simp [h₁]) hname
    cases hsame

end Rhoudveine.Tar
