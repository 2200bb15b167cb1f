import Rhoudveine.Fat32.Listing
import Rhoudveine.Fs.Descriptors

/-!
# Opening and closing files of a FAT32 volume

The FAT32 driver as the file system behind the descriptors, the rest of the tree a parameter.
Every lookup that succeeds makes a node, and nothing ever gives its frames back.
-/

namespace Rhoudveine.Fat32
open Fs Mm ByteBits
open Descriptors (FileOps FdCall fdCall fdStep lookup)

variable {τ α : Type*}

/-! ## Paths -/

/-- A place in the tree around a volume: a node of another file system, or where the volume is
mounted. -/
inductive Place (α : Type*)
  | other (node : α)
  | volume

/-- The tree around a volume, with state `τ` and nodes `α`.  Its lookups follow mounts. -/
structure Around (τ α : Type*) where
  gVfsRoot : Place α
  finddir : τ → α → Str → Option (Place α)
  create : τ → α → Str → ℤ × τ
  size : τ → α → UInt32
  openOp : τ → α → UInt32 → ℤ × τ
  closeOp : τ → α → τ

variable (dev : Device) (fuel : ℕ) (around : Around τ α) (root : Node)

/-- The node at a place; `root` is the root of the volume. -/
def Place.node (root : Node) : Place α → α ⊕ Node
  | .other node => .inl node
  | .volume => .inr root

/-- The lookup of `node`.  Nodes of the driver are no mount points. -/
def finddir (s : τ × Volume) (node : α ⊕ Node) (name : Str) :
    Option (Option (α ⊕ Node) × τ × Volume) :=
  match node with
  | .inl node => some ((around.finddir s.1 node name).map (Place.node root), s)
  | .inr node =>
    (fat32Finddir dev fuel s.2 node name).map fun out => (out.1.map Sum.inr, s.1, out.2)

/-- The loop of `vfs_resolve_path`; the length of the path bounds its rounds. -/
def resolveLoop : (rounds : ℕ) → (current : α ⊕ Node) → Str → τ × Volume →
    Option (Option (α ⊕ Node) × τ × Volume)
  | _, current, [], s => some (some current, s)
  | 0, _, _ :: _, s => some (none, s)
  | rounds + 1, current, c :: p, s =>
    let component := (takeComponent 255 (c :: p)).1
    let p := skipSlash (takeComponent 255 (c :: p)).2
    if component = [] then resolveLoop rounds current p s
    else
      match finddir dev fuel around root s current component with
      | none => none
      | some (none, s) => some (none, s)
      | some (some next, s) => resolveLoop rounds next p s

def resolvePath (s : τ × Volume) (path : Str) : Option (Option (α ⊕ Node) × τ × Volume) :=
  match path with
  | [] => some (none, s)
  | c :: p =>
    if c ≠ slash then some (none, s)
    else resolveLoop dev fuel around root p.length (around.gVfsRoot.node root) p s

/-- `vfs_create`. -/
def createPath (s : τ × Volume) (path : Str) : Option (ℤ × τ × Volume) :=
  match resolvePath dev fuel around root s (vfsDirname path) with
  | none => none
  | some (none, s) => some (-1, s)
  | some (some (.inl parent), s) =>
    match around.create s.1 parent (vfsBasename path) with
    | (r, t) => some (r, t, s.2)
  | some (some (.inr parent), s) =>
    (fat32Create dev fuel s.2 parent (vfsBasename path) vfsFile).map fun out =>
      (out.1, s.1, out.2)

/-- The file systems behind the descriptors.  `transfers` has the operations that `vfs_open` and
`vfs_close` do not call. -/
def fileOps (transfers : FileOps (τ × Volume) (α ⊕ Node)) : FileOps (τ × Volume) (α ⊕ Node) :=
  { transfers with
    resolvePath := resolvePath dev fuel around root
    create := createPath dev fuel around root
    size := fun s node => node.elim (around.size s.1) Node.size
    openOp := fun s node => some fun flags =>
      match node with
      | .inl node => some ((around.openOp s.1 node flags).1, (around.openOp s.1 node flags).2, s.2)
      | .inr _ => some (0, s)
    closeOp := fun s node => some <|
      match node with
      | .inl node => some (around.closeOp s.1 node, s.2)
      | .inr _ => some s }

/-! ## What a path finds on the volume -/

/-- The name that the walk looks up first on the volume. -/
def enteredLoop : (rounds : ℕ) → Place α → Str → τ → Option Str
  | _, _, [], _ => none
  | 0, _, _ :: _, _ => none
  | rounds + 1, current, c :: p, t =>
    let component := (takeComponent 255 (c :: p)).1
    let p := skipSlash (takeComponent 255 (c :: p)).2
    if component = [] then enteredLoop rounds current p t
    else
      match current with
      | .volume => some component
      | .other node =>
        match around.finddir t node component with
        | none => none
        | some next => enteredLoop rounds next p t

def entered (path : Str) (t : τ) : Option Str :=
  match path with
  | [] => none
  | c :: p => if c ≠ slash then none else enteredLoop around p.length around.gVfsRoot p t

/-- A record of the directory matches the name, and two frames are free. -/
def Finds (st : Volume) (name : Str) : Prop :=
  ∃ dir hit t, root.data = some dir ∧ (pfaAlloc st.pfa).1 ≠ 0 ∧
    (pfaAlloc (pfaAlloc st.pfa).2).1 ≠ 0 ∧
    scanChain dev (fun _ => nameMatches name) (pfaAlloc st.pfa).1 fuel dir.firstCluster
      (dev.leftover (pfaAlloc st.pfa).1) 0 .clear st.alloc.2 = some (some hit, t)

/-- The path leads to nothing on the volume, its root apart. -/
def Misses (s : τ × Volume) (path : Str) : Prop :=
  ∀ name, entered around path s.1 = some name → ¬ Finds dev fuel root s.2 name

/-- Nothing is found on the volume by an open: neither by its first lookup, nor when it creates
the file and looks again. -/
def FindsNothing (s : τ × Volume) : FdCall → Prop
  | .open path flags => Misses dev fuel around root s path ∧
      ∀ s₁, resolvePath dev fuel around root s path = some (none, s₁) → flags &&& oCreat ≠ 0 →
        Misses dev fuel around root s₁ (vfsDirname path) ∧
          ∀ s₂, createPath dev fuel around root s₁ path = some (0, s₂) →
            Misses dev fuel around root s₂ path
  | _ => True

/-- The calls that open and close. -/
def OpensOrCloses : FdCall → Prop
  | .open _ _ => True
  | .close _ => True
  | _ => False

/-! ## The walk -/

variable {dev fuel around root} {s s' : τ × Volume}

theorem makeNode_found (st : Volume) (dir : NodeData) (r : Record) (lfn : Lfn) :
    (makeNode st dir r lfn).1 = none ↔ (pfaAlloc st.pfa).1 = 0 := by
  unfold makeNode
  dsimp only [Volume.alloc]
  split
  · rename_i hpage
    exact iff_of_true rfl hpage
  · rename_i hpage
    exact iff_of_false (Option.some_ne_none _) hpage

theorem fat32Finddir_found {st st' : Volume} {node : Node} {name : Str} {found : Option Node}
    (h : fat32Finddir dev fuel st node name = some (found, st')) :
    found = none ↔ ¬ Finds dev fuel node st name := by
  unfold fat32Finddir fat32Scan at h
  split at h
  · rename_i hdata
    cases h
    apply iff_of_true rfl
    intro hfinds
    obtain ⟨dir, hit, t, hdir, -⟩ := hfinds
    cases hdata.symm.trans hdir
  · rename_i dir hdata
    dsimp only [Volume.alloc] at h
    split at h
    · rename_i hpage
      cases h
      apply iff_of_true rfl
      intro hfinds
      obtain ⟨dir', hit, t, hdir, hne, -⟩ := hfinds
      exact hne hpage
    · rename_i hpage
      split at h
      · cases h
      · rename_i t hscan
        cases h
        apply iff_of_true rfl
        intro hfinds
        obtain ⟨dir', hit, u, hdir, -, -, hhit⟩ := hfinds
        obtain rfl := Option.some.inj (hdata.symm.trans hdir)
        cases hscan.symm.trans hhit
      · rename_i r lfn t hscan
        cases h
        have hkept : t.pfa = (pfaAlloc st.pfa).2 := scanChain_pfa hscan
        rw [makeNode_found, hkept]
        constructor
        · intro hzero hfinds
          obtain ⟨dir', hit, u, -, -, hne, -⟩ := hfinds
          exact hne hzero
        · intro hnot
          by_contra hne
          exact hnot ⟨dir, (r, lfn), t, hdata, hpage, hne, hscan⟩

theorem finddir_shrunk {node : α ⊕ Node} {name : Str} {found : Option (α ⊕ Node)}
    (hs : WellFormed s.2.pfa) (h : finddir dev fuel around root s node name = some (found, s')) :
    Shrunk s.2.pfa s'.2.pfa := by
  cases node with
  | inl node =>
    cases h
    exact Shrunk.refl hs
  | inr node =>
    obtain ⟨out, hout, heq⟩ := Option.map_eq_some_iff.mp h
    obtain ⟨child, st'⟩ := out
    cases heq
    exact (fat32Scan_looked hs hout).took.shrunk

theorem resolveLoop_shrunk {rounds : ℕ} {current : α ⊕ Node} {p : Str} {found : Option (α ⊕ Node)}
    (hs : WellFormed s.2.pfa)
    (h : resolveLoop dev fuel around root rounds current p s = some (found, s')) :
    Shrunk s.2.pfa s'.2.pfa := by
  induction rounds generalizing current p s with
  | zero =>
    cases p with
    | nil =>
      cases h
      exact Shrunk.refl hs
    | cons c p =>
      cases h
      exact Shrunk.refl hs
  | succ rounds ih =>
    cases p with
    | nil =>
      cases h
      exact Shrunk.refl hs
    | cons c p =>
      dsimp only [resolveLoop] at h
      split at h
      · exact ih hs h
      · split at h
        · cases h
        · rename_i hfind
          cases h
          exact finddir_shrunk hs hfind
        · rename_i hfind
          have hfirst := finddir_shrunk hs hfind
          exact hfirst.trans (ih hfirst.wf h)

/-- A walk loses frames exactly when its first lookup on the volume finds something. -/
theorem resolveLoop_sameFree {rounds : ℕ} {current : Place α} {p : Str} {found : Option (α ⊕ Node)}
    (hs : WellFormed s.2.pfa)
    (h : resolveLoop dev fuel around root rounds (current.node root) p s = some (found, s')) :
    SameFree s.2.pfa s'.2.pfa ↔
      ∀ name, enteredLoop around rounds current p s.1 = some name →
        ¬ Finds dev fuel root s.2 name := by
  induction rounds generalizing current p s with
  | zero =>
    have hnothing : SameFree s.2.pfa s'.2.pfa ∧ enteredLoop around 0 current p s.1 = none := by
      cases p with
      | nil =>
        cases h
        exact ⟨SameFree.refl _, rfl⟩
      | cons c p =>
        cases h
        exact ⟨SameFree.refl _, rfl⟩
    apply iff_of_true hnothing.1
    intro name hname
    cases hnothing.2.symm.trans hname
  | succ rounds ih =>
    cases p with
    | nil =>
      cases h
      apply iff_of_true (SameFree.refl _)
      intro name hname
      cases hname
    | cons c p =>
      dsimp only [resolveLoop] at h
      dsimp only [enteredLoop]
      split at h
      · rename_i hempty
        rw [if_pos hempty]
        exact ih hs h
      · rename_i hname
        rw [if_neg hname]
        cases current with
        -- outside the volume no handle is made
        | other node =>
          dsimp only [Place.node, finddir] at h ⊢
          cases hfind : around.finddir s.1 node (takeComponent 255 (c :: p)).1 with
          | none =>
            rw [hfind] at h
            cases h
            apply iff_of_true (SameFree.refl _)
            intro name hname
            cases hname
          | some next =>
            rw [hfind] at h
            exact ih hs h
        | volume =>
          have hfirst (name : Str) : some (takeComponent 255 (c :: p)).1 = some name →
              name = (takeComponent 255 (c :: p)).1 := fun heq => (Option.some.inj heq).symm
          split at h
          · cases h
          · rename_i t hfind
            cases h
            obtain ⟨out, hout, heq⟩ := Option.map_eq_some_iff.mp hfind
            obtain ⟨child, st'⟩ := out
            obtain ⟨hchild, heq⟩ := Prod.mk.inj heq
            cases heq
            obtain rfl := Option.map_eq_none_iff.mp hchild
            -- the name is not in the directory: the page of the search is given back
            apply iff_of_true (fat32Scan_looked hs hout).took.sameFree
            intro name hname'
            rw [hfirst name hname']
            exact (fat32Finddir_found hout).mp rfl
          · rename_i next t hfind
            have hlater := resolveLoop_shrunk (finddir_shrunk hs hfind).wf h
            obtain ⟨out, hout, heq⟩ := Option.map_eq_some_iff.mp hfind
            obtain ⟨child, st'⟩ := out
            obtain ⟨hchild, heq⟩ := Prod.mk.inj heq
            cases heq
            have hlook := fat32Scan_looked hs hout
            have hsome : child ≠ none := by
              rintro rfl
              cases hchild
            -- the name is found, and the handle keeps its page
            apply iff_of_false
            · intro hsame
              exact hsome (hlook.sameFree_iff.mp ((hlook.took.shrunk.sameFree_iff hlater).mp hsame).1)
            · intro hnot
              exact hsome ((fat32Finddir_found hout).mpr (hnot _ rfl))

theorem resolvePath_frames {path : Str} {found : Option (α ⊕ Node)} (hs : WellFormed s.2.pfa)
    (h : resolvePath dev fuel around root s path = some (found, s')) :
    Shrunk s.2.pfa s'.2.pfa ∧
      (SameFree s.2.pfa s'.2.pfa ↔ Misses dev fuel around root s path) := by
  cases path with
  | nil =>
    cases h
    refine ⟨Shrunk.refl hs, iff_of_true (SameFree.refl _) ?_⟩
    intro name hname
    cases hname
  | cons c p =>
    dsimp only [resolvePath] at h
    dsimp only [Misses, entered]
    split at h
    · rename_i hc
      cases h
      refine ⟨Shrunk.refl hs, iff_of_true (SameFree.refl _) ?_⟩
      intro name hname
      rw [if_pos hc] at hname
      cases hname
    · rename_i hc
      rw [if_neg hc]
      exact ⟨resolveLoop_shrunk hs h, resolveLoop_sameFree hs h⟩

theorem createPath_frames {path : Str} {r : ℤ} (hs : WellFormed s.2.pfa)
    (h : createPath dev fuel around root s path = some (r, s')) :
    Shrunk s.2.pfa s'.2.pfa ∧
      (SameFree s.2.pfa s'.2.pfa ↔ Misses dev fuel around root s (vfsDirname path)) := by
  unfold createPath at h
  split at h
  · cases h
  · rename_i t hresolve
    cases h
    exact resolvePath_frames hs hresolve
  · rename_i parent t hresolve
    have hframes := resolvePath_frames hs hresolve
    cases h
    exact hframes
  · rename_i parent t hresolve
    obtain ⟨hshrunk, hiff⟩ := resolvePath_frames hs hresolve
    obtain ⟨out, hout, heq⟩ := Option.map_eq_some_iff.mp h
    obtain ⟨r', st'⟩ := out
    cases heq
    have htook := fat32Create_took hshrunk.wf hout
    refine ⟨hshrunk.trans htook.shrunk, ?_⟩
    rw [hshrunk.sameFree_iff htook.shrunk, hiff]
    exact and_iff_left htook.sameFree

/-! ## Opening and closing -/

variable {transfers : FileOps (τ × Volume) (α ⊕ Node)}

theorem findNode_frames {path : Str} {flags : UInt32} {found : Option (α ⊕ Node)}
    (hs : WellFormed s.2.pfa)
    (h : Descriptors.findNode (fileOps dev fuel around root transfers) s path flags =
      some (found, s')) :
    Shrunk s.2.pfa s'.2.pfa ∧
      (SameFree s.2.pfa s'.2.pfa ↔ FindsNothing dev fuel around root s (.open path flags)) := by
  unfold Descriptors.findNode at h
  dsimp only [fileOps] at h
  dsimp only [FindsNothing]
  split at h
  · cases h
  · rename_i node t hresolve
    cases h
    obtain ⟨hshrunk, hiff⟩ := resolvePath_frames hs hresolve
    refine ⟨hshrunk, hiff.trans (iff_of_eq (and_true _).symm |>.trans ?_)⟩
    apply and_congr_right'
    apply iff_of_true trivial
    intro s₁ hnull
    cases hresolve.symm.trans hnull
  · rename_i s₁ hresolve
    obtain ⟨hshrunk, hiff⟩ := resolvePath_frames hs hresolve
    have hpath {P : τ × Volume → Prop} :
        (∀ t, resolvePath dev fuel around root s path = some (none, t) → P t) ↔ P s₁ := by
      constructor
      · exact fun hall => hall s₁ hresolve
      · intro hP t ht
        cases hresolve.symm.trans ht
        exact hP
    rw [hpath]
    split at h
    · -- not found and not to be created
      rename_i hcreat
      cases h
      refine ⟨hshrunk, hiff.trans ?_⟩
      exact (and_iff_left fun hne => absurd hcreat hne).symm
    · rename_i hcreat
      rw [imp_iff_right hcreat]
      split at h
      · cases h
      · rename_i r s₂ hcreate
        obtain ⟨hshrunk', hiff'⟩ := createPath_frames hshrunk.wf hcreate
        split at h
        · rename_i hr
          cases h
          refine ⟨hshrunk.trans hshrunk', ?_⟩
          rw [hshrunk.sameFree_iff hshrunk', hiff, hiff']
          apply and_congr_right'
          apply (and_iff_left _).symm
          intro t ht
          cases hcreate.symm.trans ht
          exact absurd rfl hr
        · -- created, and resolved once more
          rename_i hr
          obtain rfl := not_not.mp hr
          have hshort := hshrunk.trans hshrunk'
          obtain ⟨hshrunk'', hiff''⟩ := resolvePath_frames hshort.wf h
          refine ⟨hshort.trans hshrunk'', ?_⟩
          rw [hshort.sameFree_iff hshrunk'', hshrunk.sameFree_iff hshrunk', hiff, hiff', hiff'',
            and_assoc]
          apply and_congr_right'
          apply and_congr_right'
          constructor
          · intro hmiss t ht
            cases hcreate.symm.trans ht
            exact hmiss
          · exact fun hall => hall s₂ hcreate

variable {st st' : Descriptors.State (τ × Volume) (α ⊕ Node)}

/-- The driver's own open takes nothing. -/
theorem openNode_pfa {files : τ × Volume} {node : α ⊕ Node} {flags : UInt32} {r : ℤ}
    (h : Descriptors.openNode (fileOps dev fuel around root transfers) st files node flags =
      some (r, st')) : st'.files.2 = files.2 := by
  unfold Descriptors.openNode Descriptors.callOpen at h
  dsimp only [fileOps] at h
  split at h
  · cases h
    rfl
  · cases node with
    | inl node =>
      dsimp only at h
      split at h
      · cases h
        rfl
      · cases h
        rfl
    | inr node =>
      cases h
      rfl

/-- Closing a descriptor gives nothing back. -/
theorem vfsClose_pfa {fd r : ℤ}
    (h : Descriptors.vfsClose (fileOps dev fuel around root transfers) st fd = some (r, st')) :
    st'.files.2 = st.files.2 := by
  unfold Descriptors.vfsClose Descriptors.callClose at h
  dsimp only [fileOps] at h
  split at h
  · cases h
    rfl
  · rename_i i file hlive
    split at h
    · cases hnode : file.node with
      | none =>
        rw [hnode] at h
        cases h
        rfl
      | some node =>
        rw [hnode] at h
        cases node with
        | inl node =>
          cases h
          rfl
        | inr node =>
          cases h
          rfl
    · cases h
      rfl

/-- What one call loses. -/
theorem fdCall_frames {c : FdCall} {r : ℤ} (hs : WellFormed st.files.2.pfa) (hc : OpensOrCloses c)
    (h : fdCall (fileOps dev fuel around root transfers) st c = some (r, st')) :
    Shrunk st.files.2.pfa st'.files.2.pfa ∧
      (SameFree st.files.2.pfa st'.files.2.pfa ↔ FindsNothing dev fuel around root st.files c) := by
  cases c with
  | «open» path flags =>
    dsimp only [fdCall, Descriptors.vfsOpen] at h
    split at h
    · cases h
    · rename_i files hnode
      cases h
      exact findNode_frames hs hnode
    · rename_i node files hnode
      rw [openNode_pfa h]
      exact findNode_frames hs hnode
  | close fd =>
    rw [vfsClose_pfa h]
    exact ⟨Shrunk.refl hs, iff_of_true (SameFree.refl _) trivial⟩
  | read fd count => exact hc.elim
  | write fd buffer count => exact hc.elim
  | seek fd offset whence => exact hc.elim
  | readdir fd => exact hc.elim

/-! ## Runs -/

/-- The state after a call that returns. -/
def fdNext (ops : FileOps (τ × Volume) (α ⊕ Node))
    (st : Descriptors.State (τ × Volume) (α ⊕ Node)) (c : FdCall) :
    Option (Descriptors.State (τ × Volume) (α ⊕ Node)) := (fdCall ops st c).map Prod.snd

theorem run_frames {calls : List FdCall} (hs : WellFormed st.files.2.pfa)
    (hcalls : ∀ c ∈ calls, OpensOrCloses c)
    (hrun : Run (fdStep (fileOps dev fuel around root transfers)) st calls st') :
    Shrunk st.files.2.pfa st'.files.2.pfa ∧
      (SameFree st.files.2.pfa st'.files.2.pfa ↔
        Always (fdNext (fileOps dev fuel around root transfers))
          (fun st c => FindsNothing dev fuel around root st.files c) st calls) := by
  induction hrun with
  | nil st => exact ⟨Shrunk.refl hs, iff_of_true (SameFree.refl _) trivial⟩
  | cons hstep _ ih =>
    rename_i s t u c calls _
    obtain ⟨r, hcall⟩ := hstep
    obtain ⟨hshrunk, hiff⟩ := fdCall_frames hs (hcalls c List.mem_cons_self) hcall
    obtain ⟨hrest, hiff'⟩ := ih hshrunk.wf fun c' hc' => hcalls c' (List.mem_cons_of_mem c hc')
    have hnext : fdNext (fileOps dev fuel around root transfers) s c = some t := by
      unfold fdNext
      rw [hcall, Option.map_some]
    refine ⟨hshrunk.trans hrest, ?_⟩
    rw [hshrunk.sameFree_iff hrest, hiff, hiff']
    apply and_congr_right'
    constructor
    · intro hall t' ht'
      cases hnext.symm.trans ht'
      exact hall
    · exact fun hall => hall t hnext

theorem freshPfa_wellFormed : WellFormed freshPfa := by
  have hset (i : ℕ) : bit (fun _ => 0xFF) i = true := bit_of_byte_full rfl
  have hclear (i : ℕ) : bit (fun _ => 0) i = false := by simp [bit]
  have hnone : clearBits (fun _ => 0xFF) maxPages = ∅ := by
    ext i
    simp [hset]
  have hall : clearBits (fun _ => 0) maxPages = Finset.range maxPages := by
    ext i
    simp [hclear]
  refine ⟨rfl, fun i _ h => ?_, ?_, ?_⟩
  · exact absurd h (by rw [freshPfa, hset]; decide)
  · change 0 = (clearBits (fun _ => 0xFF) maxPages).card
    rw [hnone, Finset.card_empty]
  · change 2097152 = (clearBits (fun _ => 0) maxPages).card
    rw [hall, Finset.card_range, maxPages_eq]

/-- The volume is the whole tree. -/
def alone : Around Unit Empty where
  gVfsRoot := .volume
  finddir _ _ _ := none
  create _ _ _ := (-1, ())
  size _ _ := 0
  openOp _ _ _ := (-1, ())
  closeOp _ _ := ()

/-- No operations but those of the volume. -/
def noTransfers : FileOps (Unit × Volume) (Empty ⊕ Node) where
  resolvePath s _ := some (none, s)
  create s _ := some (-1, s)
  size _ _ := 0
  openOp _ _ := none
  closeOp _ _ := none
  readOp _ _ := none
  writeOp _ _ := none
  readdirOp _ _ := none

/-- The file system of `fileVolume`. -/
def fileVolumeOps : FileOps (Unit × Volume) (Empty ⊕ Node) :=
  fileOps goodDevice 8 alone (fileRoot 0x41) noTransfers

def fileVolumeStart : Descriptors.State (Unit × Volume) (Empty ⊕ Node) :=
  Descriptors.start ((), (fileVolume 0x41).2.2)

/-- Open the file and close it again. -/
def openClose : List FdCall := [.open (str "/A") 0, .close 3]

/-- The state after the calls, and their return values. -/
def replies (ops : FileOps (Unit × Volume) (Empty ⊕ Node))
    (st : Descriptors.State (Unit × Volume) (Empty ⊕ Node)) : List FdCall →
    Option (List ℤ × Descriptors.State (Unit × Volume) (Empty ⊕ Node))
  | [] => some ([], st)
  | c :: calls =>
    match fdCall ops st c with
    | none => none
    | some (r, st) => (replies ops st calls).map fun out => (r :: out.1, out.2)

theorem replies_run {ops : FileOps (Unit × Volume) (Empty ⊕ Node)}
    {st st' : Descriptors.State (Unit × Volume) (Empty ⊕ Node)} {calls : List FdCall} {rs : List ℤ}
    (h : replies ops st calls = some (rs, st')) : Run (fdStep ops) st calls st' := by
  induction calls generalizing st rs with
  | nil =>
    cases h
    exact .nil _
  | cons c calls ih =>
    unfold replies at h
    split at h
    · cases h
    · rename_i r t hcall
      obtain ⟨out, hout, heq⟩ := Option.map_eq_some_iff.mp h
      obtain ⟨rs', st''⟩ := out
      cases heq
      exact .cons ⟨r, hcall⟩ (ih hout)

theorem openClose_replies : ∃ st', replies fileVolumeOps fileVolumeStart openClose =
    some ([3, 0], st') := by
  have hrs : (replies fileVolumeOps fileVolumeStart openClose).map Prod.fst = some [3, 0] := by
    decide +kernel
  obtain ⟨out, hout, hfst⟩ := Option.map_eq_some_iff.mp hrs
  obtain ⟨rs, st'⟩ := out
  cases hfst
  exact ⟨st', hout⟩

theorem fileVolume_wellFormed : WellFormed fileVolumeStart.files.2.pfa :=
  fat32Mount_wellFormed none freshPfa_wellFormed

theorem openClose_opensOrCloses : ∀ c ∈ openClose, OpensOrCloses c := by
  intro c hc
  rcases List.mem_cons.mp hc with rfl | hc
  · trivial
  · obtain rfl := List.mem_singleton.mp hc
    trivial

end Rhoudveine.Fat32
