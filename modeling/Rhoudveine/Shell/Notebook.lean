import Rhoudveine.Fs.Growing
import Rhoudveine.Fs.DirectoryCursor
import Rhoudveine.Shell.Session

/-!
# The shell's files as a notebook

What a user of the init shell sees: entries with paths, in the order in which they were made.  A
path stands for the first entry that has it.
-/

namespace Rhoudveine.Shell
open Fs Lookup Walk

/-! ## Entries with paths -/

inductive Entry
  | dir
  | file (text : Str)
  deriving DecidableEq, Repr

/-- A text and a line end over the old text; what is behind them stays. -/
def Entry.write (text : Str) : Entry → Entry
  | .dir => .dir
  | .file old => .file (text ++ newline ++ old.drop (text.length + 1))

def Entry.flags : Entry → UInt32
  | .dir => vfsDirectory
  | .file _ => vfsFile

/-- A text as the bytes of a file. -/
def ofText (text : Str) : Contents := ⟨text.length, fun p => text[p]?⟩

abbrev Pages := List (List Str × Entry)

namespace Pages

variable (made : Pages)

/-- The first entry at a path.  The root directory is there from the start. -/
def find (comps : List Str) : Option Entry :=
  if comps = [] then some .dir else (made.find? (·.1 = comps)).map (·.2)

/-- The number of the entry: 0 for the root. -/
def index (comps : List Str) : Option ℕ :=
  if comps = [] then some 0 else (made.findIdx? (·.1 = comps)).map (· + 1)

def entry : ℕ → Option Entry
  | 0 => some .dir
  | i + 1 => made[i]?.map (·.2)

def contents (n : ℕ) : Contents :=
  match made.entry n with
  | some (.file text) => ofText text
  | _ => .empty

/-- Only a directory takes a new entry, and there are 64 nodes. -/
def Takes (comps : List Str) : Prop := made.find comps.dropLast = some .dir ∧ made.length + 1 < 64

instance (comps : List Str) : Decidable (made.Takes comps) := inferInstanceAs (Decidable (_ ∧ _))

def write (comps : List Str) (text : Str) : Pages :=
  match made.findIdx? (·.1 = comps) with
  | none => made
  | some i => made.modify i fun e => (e.1, e.2.write text)

/-- What `cdl` prints of a directory. -/
def listing (comps : List Str) : Str :=
  (made.filter fun e => e.1 ≠ [] ∧ e.1.dropLast = comps).flatMap fun e =>
    e.1.getLast?.getD [] ++ (if e.2 = .dir then [slash] else []) ++ newline

end Pages

structure Notebook where
  cwd : List Str
  made : Pages
  deriving DecidableEq, Repr

/-- Where a path leads from a directory. -/
def goTo (cwd : List Str) (path : Str) : List Str :=
  (components path).foldl enter (if path.head? = some slash then [] else cwd)

/-- `vfs_mkdir` takes the path of the root for an empty name in it. -/
def place (comps : List Str) : List Str := if comps = [] then [[]] else comps

def Notebook.perform (b : Notebook) : FileCommand → Str × Notebook
  | .write filename text =>
    let comps := goTo b.cwd filename
    match b.made.find comps with
    | some (.file _) => (wroteText (absolute comps), { b with made := b.made.write comps text })
    -- both writes fail, which nobody looks at
    | some .dir => (wroteText (absolute comps), b)
    | none =>
      if b.made.Takes comps then
        (wroteText (absolute comps),
          { b with made := Pages.write (b.made ++ [(comps, .file [])]) comps text })
      else (writeFailed (absolute comps), b)
  | .mkdir path =>
    let comps := place (goTo b.cwd path)
    if b.made.Takes comps then (mkdirText true, { b with made := b.made ++ [(comps, .dir)] })
    else (mkdirText false, b)
  | .cdl path =>
    let comps := goTo b.cwd path
    match b.made.find comps with
    | none => (listFailed (absolute comps), b)
    | some .dir => (b.made.listing comps, b)
    | some (.file _) => ([], b)
  | .dump path =>
    let comps := goTo b.cwd path
    match b.made.find comps with
    | none => (dumpFailed (absolute comps), b)
    | some .dir => (newline, b)
    | some (.file text) => (text ++ newline, b)
  | .cd target =>
    let comps := goTo b.cwd target
    if (b.made.find comps).isSome then (cdDone (absolute comps), { b with cwd := comps })
    else (cdFailed (absolute comps), b)

namespace Pages

variable {made made' : Pages} {comps p q : List Str} {n : ℕ}

@[simp] theorem index_nil : made.index [] = some 0 := if_pos rfl

@[simp] theorem find_nil : made.find [] = some .dir := if_pos rfl

theorem find_eq (comps : List Str) : made.find comps = (made.index comps).bind made.entry := by
  unfold find index
  split
  · rfl
  · rw [List.find?_eq_bind_findIdx?_getElem?]
    cases made.findIdx? (·.1 = comps) <;> rfl

theorem index_succ {i : ℕ} (h : made.index p = some (i + 1)) :
    p ≠ [] ∧ ∃ e, made[i]? = some e ∧ e.1 = p := by
  unfold index at h
  split at h
  · cases h
  · rename_i hp
    refine ⟨hp, ?_⟩
    obtain ⟨j, hj, hji⟩ := Option.map_eq_some_iff.mp h
    obtain rfl : j = i := Nat.succ.inj hji
    obtain ⟨hlt, heq, -⟩ := List.findIdx?_eq_some_iff_getElem.mp hj
    exact ⟨made[j], List.getElem?_eq_getElem hlt, of_decide_eq_true heq⟩

theorem index_zero (h : made.index p = some 0) : p = [] := by
  unfold index at h
  split at h
  · assumption
  · obtain ⟨j, -, hj⟩ := Option.map_eq_some_iff.mp h
    cases hj

theorem index_inj (hp : made.index p = some n) (hq : made.index q = some n) : p = q := by
  cases n with
  | zero => rw [index_zero hp, index_zero hq]
  | succ i =>
    obtain ⟨-, e, he, rfl⟩ := index_succ hp
    obtain ⟨-, e', he', rfl⟩ := index_succ hq
    rw [Option.some.inj (he.symm.trans he')]

theorem index_lt (h : made.index p = some n) : n < made.length + 1 := by
  cases n with
  | zero => exact Nat.succ_pos _
  | succ i =>
    obtain ⟨-, e, he, -⟩ := index_succ h
    exact Nat.succ_lt_succ (List.getElem?_eq_some_iff.mp he).1

theorem isSome_find : (made.find p).isSome = (made.index p).isSome := by
  rw [find_eq]
  cases h : made.index p with
  | none => rfl
  | some n =>
    cases n with
    | zero => rfl
    | succ i =>
      obtain ⟨-, e, he, -⟩ := index_succ h
      simp [entry, he]

theorem entry_of_index (h : made.index p = some n) : ∃ e, made.entry n = some e := by
  have hfind : (made.find p).isSome := by
    rw [isSome_find, h]
    rfl
  rw [find_eq, h] at hfind
  exact Option.isSome_iff_exists.mp hfind

theorem index_append (e : List Str × Entry) :
    (made ++ [e]).index p =
      (made.index p).or (if e.1 = p then some (made.length + 1) else none) := by
  unfold index
  split
  · rfl
  · rw [List.findIdx?_append, List.findIdx?_singleton]
    cases made.findIdx? (·.1 = p) with
    | some i => rfl
    | none => by_cases he : e.1 = p <;> simp [he, Nat.add_comm]

theorem index_congr (h : made'.map Prod.fst = made.map Prod.fst) (p : List Str) :
    made'.index p = made.index p := by
  have hmap (made : Pages) :
      made.findIdx? (·.1 = p) = (made.map Prod.fst).findIdx? (· = p) := by
    rw [List.findIdx?_map]
    rfl
  rw [index, index, hmap made', hmap made, h]

theorem map_fst_write (made : Pages) (comps : List Str) (text : Str) :
    (made.write comps text).map Prod.fst = made.map Prod.fst := by
  unfold write
  split
  · rfl
  · apply List.ext_getElem?
    intro i
    simp only [List.getElem?_map, List.getElem?_modify]
    cases made[i]? <;> simp
    split <;> rfl

theorem getElem?_write (h : made.index comps = some (n + 1)) (text : Str) (i : ℕ) :
    (made.write comps text)[i]? =
      if i = n then made[i]?.map fun e => (e.1, e.2.write text) else made[i]? := by
  have hfound : made.findIdx? (·.1 = comps) = some n := by
    unfold index at h
    split at h
    · cases h
    · obtain ⟨j, hj, hjn⟩ := Option.map_eq_some_iff.mp h
      rw [hj, Nat.succ.inj hjn]
  unfold write
  rw [hfound]
  dsimp only
  rw [List.getElem?_modify]
  by_cases hi : n = i
  · subst hi
    simp
  · simp [hi, Ne.symm hi]

theorem contents_write (h : made.index comps = some (n + 1)) {old : Str}
    (hold : made.entry (n + 1) = some (.file old)) (text : Str) :
    (made.write comps text).contents =
      Function.update made.contents (n + 1)
        (ofText (text ++ newline ++ old.drop (text.length + 1))) := by
  funext m
  obtain ⟨e, he, heq⟩ := Option.map_eq_some_iff.mp hold
  by_cases hm : m = n + 1
  · subst hm
    rw [Function.update_self, contents, entry, getElem?_write h, if_pos rfl, he]
    simp only [Option.map_some, heq, Entry.write]
  · rw [Function.update_of_ne hm]
    cases m with
    | zero => rfl
    | succ i =>
      have hi : i ≠ n := fun heq => hm (congrArg (· + 1) heq)
      rw [contents, contents, entry, entry, getElem?_write h, if_neg hi]

end Pages

theorem write_ofText (old text : Str) :
    ((ofText old).write 0 text.length fun i => text.getD i 0).write (0 + text.length) 1
        (fun i => newline.getD i 0) = ofText (text ++ newline ++ old.drop (text.length + 1)) := by
  have hsize : max (max old.length (0 + text.length)) (0 + text.length + 1) =
      (text ++ newline ++ old.drop (text.length + 1)).length := by
    simp only [List.length_append, List.length_drop, newline, List.length_singleton]
    omega
  unfold ofText Contents.write
  simp only [hsize, Contents.mk.injEq, true_and]
  funext p
  rcases Nat.lt_trichotomy p text.length with hlt | rfl | hgt
  · rw [if_neg (by omega), if_pos (by omega), List.append_assoc, List.getElem?_append_left hlt]
    simp [hlt]
  · rw [if_pos (by omega), List.append_assoc, List.getElem?_append_right le_rfl]
    simp [newline]
  · rw [if_neg (by omega), if_neg (by omega), List.getElem?_append_right]
    · rw [List.getElem?_drop]
      congr 1
      simp only [List.length_append, newline, List.length_singleton]
      omega
    · simp only [List.length_append, newline, List.length_singleton]
      omega

/-! ## The notebook that ramfs shows -/

structure Shows (answers : ℕ → UInt64) (made : Pages) (v : Vfs) : Prop where
  tree : OneTree v
  tidy : Tidy v
  count : v.ramfsNodeCount = made.length + 1
  walk_eq : ∀ comps, walk (ramfsFinddir v) 0 comps = made.index comps
  name : ∀ i e, made[i]? = some e → (v.ramfsNodePool (i + 1)).name.take 255 = e.1.getLast?.getD []
  flags : ∀ i e, made[i]? = some e → (v.ramfsNodePool (i + 1)).flags = e.2.flags
  placed : ∀ e ∈ made, e.1 ≠ [] ∧ (made.index e.1.dropLast).isSome
  child : ∀ d c, Child v d c ↔
    ∃ i e, c = i + 1 ∧ made[i]? = some e ∧ made.index e.1.dropLast = some d
  free : ∀ n, v.ramfsNodeCount ≤ n → (v.ramfsNodePool n).ops = none
  agrees : Agrees answers ⟨v, ⟨made.contents, fun _ => none⟩⟩

variable {answers : ℕ → UInt64} {made made' : Pages} {v v' : Vfs} {n : ℕ} {comps : List Str}

theorem tidy_same (h : Tidy v) (ht : SameTree v v') (he : SameEntries v v') : Tidy v' where
  forest := by
    obtain ⟨roots, hroots⟩ := h.forest
    exact ⟨roots, hroots.sameTree ht⟩
  ops n hn := by
    rw [ht.ops]
    exact h.ops n (ht.count ▸ hn)
  entry_lt k r hr := by
    rw [ht.count]
    exact h.entry_lt k r (ht.mounts.1 ▸ hr)
  root_lt r hr := by
    rw [ht.count]
    exact h.root_lt r (ht.root ▸ hr)
  name_le := by
    rw [ht.data]
    exact h.name_le
  catalogued := h.catalogued.same he
  ascending := h.ascending.same he
  sizeless := h.sizeless.same he

theorem Entry.flags_isDir (e : Entry) : e.flags &&& vfsDirectory ≠ 0 ↔ e = .dir := by
  cases e with
  | dir => exact iff_of_true (by decide) rfl
  | file text => exact iff_of_false (by decide : ¬ vfsFile &&& vfsDirectory ≠ 0) (by simp)

namespace Shows

theorem freeFd_eq (h : Shows answers made v) : freeFd v = some 3 := by
  have hdead : (v.gFds 3).refcount = 0 := by
    rcases h.agrees.fd_cases 3 with ⟨hlive, -⟩ | ⟨file, n, -, -, -, -, -, -, hfds⟩
    · by_contra hne
      have hsome : liveFd v 3 = some (3, v.gFds 3) :=
        liveFd_eq_some.mpr ⟨by decide, by decide, hne, rfl, rfl⟩
      rw [hlive] at hsome
      cases hsome
    · cases hfds
  unfold freeFd
  rw [show maxFds - 3 = 252 + 1 from rfl, Search.firstSome, hdead]
  rfl

theorem node_lt (h : Shows answers made v) {e : Entry} (he : made.entry n = some e) :
    n < v.ramfsNodeCount := by
  rw [h.count]
  cases n with
  | zero => exact Nat.succ_pos _
  | succ i =>
    obtain ⟨e', he', -⟩ := Option.map_eq_some_iff.mp he
    exact Nat.succ_lt_succ (List.getElem?_eq_some_iff.mp he').1

theorem isDir_iff (h : Shows answers made v) {e : Entry} (he : made.entry n = some e) :
    (v.ramfsNodePool n).isDir ↔ e = .dir := by
  cases n with
  | zero =>
    cases he
    exact iff_of_true h.tree.root_dir rfl
  | succ i =>
    obtain ⟨e', he', rfl⟩ := Option.map_eq_some_iff.mp he
    rw [Node.isDir, h.flags i e' he', Entry.flags_isDir]

theorem isFile (h : Shows answers made v) {text : Str} (he : made.entry n = some (.file text)) :
    IsFile v n := by
  refine ⟨fun hdir => ?_, h.tree.ops n (h.node_lt he)⟩
  cases (h.isDir_iff he).mp hdir

theorem resolve (h : Shows answers made v) (hcomps : ∀ x ∈ comps, Component x) :
    vfsResolvePath v (absolute comps) = .ofPointer (made.index comps) := by
  rw [h.tree.resolve_absolute hcomps, h.walk_eq]

/-- What changes no entry and no path. -/
theorem same (h : Shows answers made v) (ht : SameTree v v') (he : SameEntries v v')
    (hpaths : made'.map Prod.fst = made.map Prod.fst)
    (hflags : ∀ (i : ℕ) (e : List Str × Entry), made'[i]? = some e →
      ∃ e₀ : List Str × Entry, made[i]? = some e₀ ∧ e₀.2.flags = e.2.flags)
    (hagrees : Agrees answers ⟨v', ⟨made'.contents, fun _ => none⟩⟩) : Shows answers made' v' := by
  have hindex := Pages.index_congr hpaths
  have hlen : made'.length = made.length := by
    rw [← List.length_map Prod.fst, hpaths, List.length_map]
  have hold {i : ℕ} {e : List Str × Entry} (hi : made'[i]? = some e) :
      ∃ e₀, made[i]? = some e₀ ∧ e₀.1 = e.1 := by
    have hmap := congrArg (·[i]?) hpaths
    simp only [List.getElem?_map, hi, Option.map_some] at hmap
    exact Option.map_eq_some_iff.mp hmap.symm
  have hnew {i : ℕ} {e₀ : List Str × Entry} (hi : made[i]? = some e₀) :
      ∃ e, made'[i]? = some e ∧ e.1 = e₀.1 := by
    have hmap := congrArg (·[i]?) hpaths
    simp only [List.getElem?_map, hi, Option.map_some] at hmap
    exact Option.map_eq_some_iff.mp hmap
  refine
    { tree := ht.oneTree h.tree
      tidy := tidy_same h.tidy ht he
      count := by rw [ht.count, h.count, hlen]
      walk_eq := fun comps => by rw [ht.walk_eq, h.walk_eq, hindex]
      name := fun i e hi => ?_
      flags := fun i e hi => ?_
      placed := fun e hmem => ?_
      child := fun d c => ?_
      free := fun n hn => ?_
      agrees := hagrees }
  · obtain ⟨e₀, he₀, hfst⟩ := hold hi
    rw [he.name, h.name i e₀ he₀, hfst]
  · obtain ⟨e₀, he₀, hsame⟩ := hflags i e hi
    rw [ht.flags, h.flags i e₀ he₀, hsame]
  · obtain ⟨i, hi⟩ := List.mem_iff_getElem?.mp hmem
    obtain ⟨e₀, he₀, hfst⟩ := hold hi
    rw [hindex, ← hfst]
    exact h.placed e₀ (List.mem_of_getElem? he₀)
  · have hchild : Child v' d c ↔ Child v d c := by
      obtain ⟨roots, hroots⟩ := h.tidy.forest
      rw [(hroots.sameTree ht).child_iff, hroots.child_iff, ht.data]
    rw [hchild, h.child]
    constructor
    · rintro ⟨i, e₀, rfl, he₀, hd⟩
      obtain ⟨e, hi, hfst⟩ := hnew he₀
      exact ⟨i, e, rfl, hi, by rw [hindex, hfst, hd]⟩
    · rintro ⟨i, e, rfl, hi, hd⟩
      obtain ⟨e₀, he₀, hfst⟩ := hold hi
      exact ⟨i, e₀, rfl, he₀, by rw [← hindex, hfst, hd]⟩
  · rw [ht.ops]
    exact h.free n (ht.count ▸ hn)

/-- The descriptor 3 is used and closed again. -/
theorem closed (h : Shows answers made v) {file : FileDescriptor} (hfile : file.refcount = 0) :
    Shows answers made (v.setFd 3 file) := by
  refine h.same (sameTree_setFd v 3 file) (.of_pool rfl rfl rfl) rfl (fun i e hi => ⟨e, hi, rfl⟩) ?_
  have hagrees := h.agrees.setFd (show (0 : ℤ) ≤ 3 by decide) (by decide)
    fun hne : file.refcount ≠ 0 => absurd hfile hne
  have hview : file.view = none := if_pos hfile
  rw [hview, Function.update_eq_self_iff.mpr rfl] at hagrees
  exact hagrees

theorem contents_append {e : Entry} (he : e = .dir ∨ e = .file []) :
    Pages.contents (made ++ [(comps, e)]) = made.contents := by
  funext n
  cases n with
  | zero => rfl
  | succ i =>
    simp only [Pages.contents, Pages.entry]
    by_cases hi : i < made.length
    · rw [List.getElem?_append_left hi]
    · rw [List.getElem?_append_right (not_lt.mp hi), List.getElem?_eq_none (not_lt.mp hi)]
      rcases Nat.eq_zero_or_pos (i - made.length) with hzero | hpos
      · rw [hzero]
        rcases he with rfl | rfl <;> rfl
      · have hpast : [(comps, e)].length ≤ i - made.length := hpos
        rw [List.getElem?_eq_none hpast]

/-- Under each directory there is what was there, and in one of them the new node. -/
theorem child_created {roots : Finset ℕ} (hf : Forest v roots) {p : ℕ} {name : Str} {flags : UInt32}
    (hc : Created v p name flags v') {d c : ℕ} :
    Child v' d c ↔ Child v d c ∨ (d = p ∧ c = v.ramfsNodeCount) := by
  by_cases hd : d = p
  · subst hd
    rw [hf.child_created hc]
    simp
  · have hne : d ≠ p := hd
    have hf' := hf.created hc
    obtain ⟨hdir, hdata, -, -, -, -⟩ := hc
    obtain ⟨hp, hown⟩ := hf.dir_data p hdir
    obtain rfl := FsData.dir.inj (hown.symm.trans hdata)
    rw [hf'.child_iff, hf.child_iff]
    by_cases hnew : d = v.ramfsNodeCount
    · subst hnew
      rw [enterChild_newDir hp]
      have hnone := hf.next_empty
      simp [hnone, hne]
    · rw [enterChild_oldDir hnew hne]
      simp [hne]

/-- A new entry in a directory. -/
theorem create (h : Shows answers made v) {p : ℕ} {init : List Str} {name : Str} {e : Entry}
    (hp : made.index init = some p) (hdir : made.entry p = some .dir) (hname : name.length ≤ 31)
    (hroom : made.length + 1 < 64) (he : e = .dir ∨ e = .file []) :
    ∃ v', ramfsCreate v p name e.flags = (0, v') ∧
      Shows answers (made ++ [(init ++ [name], e)]) v' ∧ v'.allocs = v.allocs := by
  have hcount : v.ramfsNodeCount < maxRamfsNodes := h.count ▸ hroom
  obtain ⟨v', hmade, hgrown⟩ :=
    h.tree.create e.flags hcount ((h.isDir_iff hdir).mpr rfl) hname
  refine ⟨v', hmade, ?_, hgrown.files.2.2.2.1⟩
  have hcreated : Created v p name e.flags v' := by
    rcases ramfsCreate_cases v p name e.flags with hfail | ⟨t, ht, hc⟩
    · rw [hmade] at hfail
      cases hfail
    · obtain ⟨-, rfl⟩ := Prod.mk.inj (hmade.symm.trans ht)
      exact hc
  have hwalk : walk (ramfsFinddir v) 0 init = some p := (h.walk_eq init).trans hp
  have hnew : v.ramfsNodeCount = made.length + 1 := h.count
  have hindex (q : List Str) (n : ℕ) (hq : made.index q = some n) :
      Pages.index (made ++ [(init ++ [name], e)]) q = some n := by
    rw [Pages.index_append, hq, Option.some_or]
  have hstep : treeStep answers v (.create (some p) name e.flags) v' :=
    (congrArg Prod.snd hmade).symm
  refine
    { tree := hgrown.tree
      tidy := h.tidy.step hstep
      count := by rw [hgrown.count, h.count, List.length_append, List.length_singleton]
      walk_eq := fun q => ?_
      name := fun i e' hi => ?_
      flags := fun i e' hi => ?_
      placed := fun e' hmem => ?_
      child := fun d c => ?_
      free := fun n hn => ?_
      agrees := ?_ }
  · rw [Pages.index_append]
    by_cases hfree : ramfsFinddir v p name = none
    · rw [hgrown.walk_new h.tree hwalk hfree, h.walk_eq]
      have hnone : made.index (init ++ [name]) = none := by
        rw [← h.walk_eq, walk_concat_some hwalk, hfree]
      by_cases hq : q = init ++ [name]
      · subst hq
        simp [hnone, hnew]
      · simp [hq, Ne.symm hq]
    · rw [hgrown.walk_dup h.tree hfree, h.walk_eq]
      have hsome : made.index (init ++ [name]) ≠ none := by
        rw [← h.walk_eq, walk_concat_some hwalk]
        exact hfree
      by_cases hq : init ++ [name] = q
      · subst hq
        obtain ⟨n, hn⟩ := Option.ne_none_iff_exists'.mp hsome
        simp [hn]
      · simp [hq]
  · by_cases hlt : i < made.length
    · rw [List.getElem?_append_left hlt] at hi
      rw [hgrown.old (i + 1) (by omega), h.name i e' hi]
    · obtain rfl : i = made.length := by
        have hlen := (List.getElem?_eq_some_iff.mp hi).1
        simp at hlen
        omega
      simp only [List.getElem?_concat_length, Option.some.injEq] at hi
      subst hi
      rw [← hnew, hgrown.new]
      simp only [newNode, List.getLast?_concat, Option.getD_some, List.take_take]
      exact List.take_of_length_le (by simpa using hname.trans (by decide))
  · by_cases hlt : i < made.length
    · rw [List.getElem?_append_left hlt] at hi
      rw [hgrown.old (i + 1) (by omega), h.flags i e' hi]
    · obtain rfl : i = made.length := by
        have hlen := (List.getElem?_eq_some_iff.mp hi).1
        simp at hlen
        omega
      simp only [List.getElem?_concat_length, Option.some.injEq] at hi
      subst hi
      rw [← hnew, hgrown.new]
      rfl
  · rcases List.mem_append.mp hmem with hold | hlast
    · obtain ⟨hne, hparent⟩ := h.placed e' hold
      obtain ⟨n, hn⟩ := Option.isSome_iff_exists.mp hparent
      exact ⟨hne, by rw [hindex _ n hn]; rfl⟩
    · obtain rfl := List.mem_singleton.mp hlast
      rw [List.dropLast_concat, hindex _ p hp]
      exact ⟨by simp, rfl⟩
  · obtain ⟨roots, hroots⟩ := h.tidy.forest
    rw [child_created hroots hcreated, h.child]
    constructor
    · rintro (⟨i, e', rfl, hi, hd⟩ | ⟨rfl, rfl⟩)
      · refine ⟨i, e', rfl, ?_, hindex _ d hd⟩
        rw [List.getElem?_append_left (List.getElem?_eq_some_iff.mp hi).1, hi]
      · refine ⟨made.length, _, hnew, List.getElem?_concat_length, ?_⟩
        rw [List.dropLast_concat, hindex _ d hp]
    · rintro ⟨i, e', rfl, hi, hd⟩
      by_cases hlt : i < made.length
      · rw [List.getElem?_append_left hlt] at hi
        refine Or.inl ⟨i, e', rfl, hi, ?_⟩
        obtain ⟨n, hn⟩ := Option.isSome_iff_exists.mp (h.placed e' (List.mem_of_getElem? hi)).2
        rw [hn, ← hd, hindex _ n hn]
      · obtain rfl : i = made.length := by
          have hlen := (List.getElem?_eq_some_iff.mp hi).1
          simp at hlen
          omega
        simp only [List.getElem?_concat_length, Option.some.injEq] at hi
        subst hi
        rw [List.dropLast_concat, hindex _ p hp] at hd
        exact Or.inr ⟨(Option.some.inj hd).symm, hnew.symm⟩
  · rw [hgrown.count] at hn
    rw [hgrown.old n (by omega)]
    exact h.free n (by omega)
  · rw [contents_append he]
    refine h.agrees.created hgrown.oneNode (h.free _ le_rfl) hcount ?_
    dsimp only
    rw [Pages.contents, hnew, Pages.entry, List.getElem?_eq_none le_rfl]
    rfl

end Shows

end Rhoudveine.Shell
