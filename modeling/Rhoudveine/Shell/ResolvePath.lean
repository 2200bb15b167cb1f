import Rhoudveine.Shell.PathBuffer

/-!
# Where the shell is

`resolve_path` against the lexical meaning of a path, and `g_cwd` of `init/main.c` over the lines
that are typed.
-/

namespace Rhoudveine.Shell
open Fs Lookup

/-! ## Normalised paths -/

/-- A component of a normalised path. -/
structure Proper (x : Str) : Prop where
  nonempty : x ≠ []
  no_slash : slash ∉ x
  ne_dot : x ≠ dot
  ne_dotdot : x ≠ dotdot

def IsNormal (p : Str) : Prop := ∃ comps, (∀ x ∈ comps, Proper x) ∧ p = absolute comps

/-- One component, read lexically; `..` at the root stays there. -/
def enter (comps : List Str) (x : Str) : List Str :=
  if x = dot then comps else if x = dotdot then comps.dropLast else comps ++ [x]

/-- `input` if it starts with a slash, `cwd/input` otherwise. -/
def meant (cwd input : Str) : Str :=
  if input.head? = some slash then input else cwd ++ slash :: input

def normalise (p : Str) : Str := absolute ((components p).foldl enter [])

/-- There is room for `cwd` and its slash, and for the normalised path after each component. -/
def Fits (cwd input : Str) : Prop :=
  (input.head? ≠ some slash → cwd.length ≤ 126) ∧
    ∀ read, read <+: components (meant cwd input) → (absolute (read.foldl enter [])).length ≤ 127

/-! ## The shell -/

/-- The weak symbols for files, whether they are linked in. -/
structure Linked where
  vfsOpen : Bool
  vfsClose : Bool
  vfsRead : Bool
  vfsWrite : Bool
  vfsReaddir : Bool
  vfsMkdir : Bool

/-- The path that a line hands to `resolve_path`, and whether it is to be the new `g_cwd`. -/
def pathOf (k : Linked) (buf : Str) : Option (Bool × Str) :=
  if buf = str "help" ∨ buf = str "uptime" then none
  else if str "write " <+: buf then
    if k.vfsOpen ∧ k.vfsWrite ∧ k.vfsClose then
      some (false, ((buf.drop 6).takeWhile (· ≠ 0x20)).take 127)
    else none
  else if str "mkdir " <+: buf then
    if k.vfsMkdir then some (false, buf.drop 6) else none
  else if str "diskread " <+: buf then none
  else if buf = str "panic" ∨ str "panic " <+: buf ∨ str "echo " <+: buf then none
  else if buf = str "cdl" ∨ str "cdl " <+: buf then
    if k.vfsOpen ∧ k.vfsReaddir ∧ k.vfsClose then
      some (false, if buf[3]? = some 0x20 then buf.drop 4 else [])
    else none
  else if str "dump " <+: buf then
    if k.vfsOpen ∧ k.vfsRead ∧ k.vfsClose then some (false, buf.drop 5) else none
  -- what is left may be a directory to go to
  else if str "cd " <+: buf then some (true, buf.drop 3)
  else if buf.head? = some slash then some (true, buf)
  else if buf.getLast? = some slash then some (true, buf)
  else if buf = dotdot then some (true, dotdot)
  else none

/-- A line in `buf`, with what is on the stack and whether `vfs_open` finds the path. -/
structure Line where
  buf : Str
  not_zero : 0 ∉ buf
  length_le : buf.length ≤ 127
  stack : ℕ → UInt8
  opened : Bool

/-- `g_cwd` after a line. -/
def Line.run (k : Linked) (gCwd : Str) (l : Line) : Str :=
  match pathOf k l.buf with
  | some (true, target) =>
    let newPath := (resolvePath l.stack gCwd target).dest
    if k.vfsOpen ∧ k.vfsClose then if l.opened then newPath else gCwd else newPath
  | _ => gCwd

/-- The path of the line, if there is one, fits into the buffer. -/
def Line.Fits (k : Linked) (gCwd : Str) (l : Line) : Prop :=
  ∀ isCd target, pathOf k l.buf = some (isCd, target) → Shell.Fits gCwd target

/-! ## The components of the path in the buffer -/

/-- The path with a slash behind every component. -/
def directory (comps : List Str) : Str := slash :: comps.flatMap (· ++ [slash])

variable {comps read : List Str} {w x cwd input : Str}

theorem directory_concat (comps : List Str) (x : Str) :
    directory (comps ++ [x]) = directory comps ++ x ++ [slash] := by
  simp [directory]

theorem directory_eq (h : comps ≠ []) : directory comps = absolute comps ++ [slash] := by
  rw [absolute, if_neg h, directory]
  clear h
  induction comps with
  | nil => rfl
  | cons x comps ih =>
    simp only [List.flatMap_cons, List.append_assoc, List.cons_append, List.nil_append, ih]

theorem getLast?_directory (comps : List Str) : (directory comps).getLast? = some slash := by
  by_cases h : comps = []
  · rw [h]
    rfl
  · rw [directory_eq h, List.getLast?_concat]

theorem length_directory_pos (comps : List Str) : 0 < (directory comps).length := Nat.succ_pos _

theorem absolute_concat_eq (comps : List Str) (x : Str) :
    absolute (comps ++ [x]) = directory comps ++ x := by
  have hdirectory := @directory_eq (comps ++ [x]) (by simp)
  rw [directory_concat] at hdirectory
  exact (List.append_cancel_right hdirectory).symm

/-- The path is that of the components, with or without a slash behind them. -/
structure Holds (w : Str) (comps : List Str) : Prop where
  separated_eq : separated w = directory comps
  names : ∀ x ∈ comps, x ≠ [] ∧ slash ∉ x

theorem separated_directory (comps : List Str) : separated (directory comps) = directory comps := by
  rw [separated, if_neg]
  simp [getLast?_directory]

theorem holds_directory (h : ∀ x ∈ comps, x ≠ [] ∧ slash ∉ x) : Holds (directory comps) comps :=
  ⟨separated_directory comps, h⟩

/-- What ends in a component gets a slash. -/
theorem holds_concat (h : ∀ y ∈ comps, y ≠ [] ∧ slash ∉ y) (hx : x ≠ [] ∧ slash ∉ x) :
    Holds (directory comps ++ x) (comps ++ [x]) := by
  have hlast : (directory comps ++ x).getLast? ≠ some slash := by
    rw [List.getLast?_append_of_ne_nil _ hx.1]
    exact fun hlast => hx.2 (List.mem_of_getLast? hlast)
  have hlen : 1 < (directory comps ++ x).length := by
    have hdirectory := length_directory_pos comps
    have hname := List.length_pos_iff.mpr hx.1
    rw [List.length_append]
    omega
  constructor
  · rw [separated, if_pos ⟨hlen, hlast⟩, directory_concat]
  · intro y hy
    rcases List.mem_append.mp hy with hy | hy
    · exact h y hy
    · rw [List.mem_singleton.mp hy]
      exact hx

/-- The two shapes of the path. -/
theorem Holds.cases (h : Holds w comps) :
    w = directory comps ∨ w ++ [slash] = directory comps := by
  have heq := h.separated_eq
  rw [separated] at heq
  split_ifs at heq
  · exact .inr heq
  · exact .inl heq

theorem rdropWhile_directory (comps : List Str) {x : Str} (hx : slash ∉ x) :
    (directory comps ++ x).rdropWhile (· ≠ slash) = directory comps := by
  induction x using List.reverseRecOn with
  | nil =>
    rw [List.append_nil, List.rdropWhile_eq_self_iff]
    intro hne
    have hlast := getLast?_directory comps
    rw [List.getLast?_eq_some_getLast hne] at hlast
    simpa using hlast
  | append_singleton x c ih =>
    have hc : c ≠ slash := fun hc => hx (by simp [hc])
    rw [← List.append_assoc, List.rdropWhile_concat_pos _ _ _ (by simpa using hc)]
    exact ih fun hmem => hx (List.mem_append_left _ hmem)

/-- Below the last component stand the others. -/
theorem Holds.below (h : Holds w (comps ++ [x])) :
    1 < w.length ∧ ∃ y, slash ∉ y ∧ w.dropLast = directory comps ++ y := by
  have hx := h.names x (by simp)
  have hdirectory := length_directory_pos comps
  have hname := List.length_pos_iff.mpr hx.1
  rcases h.cases with heq | heq
  · rw [directory_concat] at heq
    rw [heq, List.dropLast_concat]
    simp only [List.length_append, List.length_singleton]
    exact ⟨by omega, x, hx.2, rfl⟩
  · rw [directory_concat] at heq
    rw [List.append_cancel_right heq, List.dropLast_append_of_ne_nil hx.1, List.length_append]
    exact ⟨by omega, x.dropLast, fun hmem => hx.2 (List.dropLast_subset _ hmem), rfl⟩

theorem Holds.root (h : Holds w []) : w = [slash] := by
  rcases h.cases with heq | heq
  · exact heq
  · obtain rfl : w = [] := List.append_cancel_right (heq.trans (List.nil_append _).symm)
    cases h.separated_eq

/-- `..` takes the last component away, whether a slash stands behind it or not. -/
theorem Holds.pop (h : Holds w comps) : Holds (popPath w) comps.dropLast := by
  rcases List.eq_nil_or_concat' comps with rfl | ⟨init, x, rfl⟩
  · rw [h.root]
    exact holds_directory h.names
  · obtain ⟨hlen, y, hy, hbelow⟩ := h.below
    rw [popPath, if_pos hlen, hbelow, rdropWhile_directory init hy, List.dropLast_concat]
    exact holds_directory fun x hx => h.names x (List.mem_append_left _ hx)

/-- A component with room for it is put behind the others. -/
theorem Holds.append (h : Holds w comps) (hx : x ≠ [] ∧ slash ∉ x)
    (hroom : (directory comps).length + x.length ≤ 127) :
    Holds (appendPath w x) (comps ++ [x]) := by
  rw [appendPath, h.separated_eq, List.take_of_length_le (by omega)]
  exact holds_concat h.names hx

theorem Holds.cleanup (h : Holds w comps) : cleanupPath w = absolute comps := by
  rcases List.eq_nil_or_concat' comps with rfl | ⟨init, x, rfl⟩
  · rw [h.root]
    rfl
  · have hx := h.names x (by simp)
    have hlen := h.below.1
    rw [absolute_concat_eq]
    rcases h.cases with heq | heq
    · rw [directory_concat] at heq
      rw [heq] at hlen ⊢
      rw [cleanupPath, if_pos ⟨hlen, List.getLast?_concat⟩, List.dropLast_concat]
    · rw [directory_concat] at heq
      rw [List.append_cancel_right heq] at hlen ⊢
      rw [cleanupPath, if_neg, if_neg (by simp [hx.1])]
      rw [List.getLast?_append_of_ne_nil _ hx.1]
      exact fun hlast => hx.2 (List.mem_of_getLast? hlast.2)

/-! ## One call -/

theorem components_directory (h : ∀ x ∈ comps, x ≠ [] ∧ slash ∉ x) :
    components (directory comps) = comps := by
  rw [directory, components_cons_slash]
  induction comps with
  | nil => rfl
  | cons x comps ih =>
    have hx := h x List.mem_cons_self
    rw [List.flatMap_cons, List.append_assoc, List.singleton_append, components_append_slash,
      components_of_not_mem hx.1 hx.2, ih fun y hy => h y (List.mem_cons_of_mem _ hy)]
    rfl

theorem components_absolute (h : ∀ x ∈ comps, x ≠ [] ∧ slash ∉ x) :
    components (absolute comps) = comps := by
  by_cases hne : comps = []
  · rw [hne]
    rfl
  · have hcomps := components_directory h
    rwa [directory_eq hne, components_append_slash, show components [] = [] from rfl,
      List.append_nil] at hcomps

/-- Reading a proper component adds it. -/
theorem foldl_enter_proper (h : ∀ x ∈ read, Proper x) :
    read.foldl enter comps = comps ++ read := by
  induction read generalizing comps with
  | nil => simp
  | cons x read ih =>
    have hx := h x List.mem_cons_self
    rw [List.foldl_cons, enter, if_neg hx.ne_dot, if_neg hx.ne_dotdot,
      ih fun y hy => h y (List.mem_cons_of_mem _ hy), List.append_assoc, List.singleton_append]

theorem proper_enter (hcomps : ∀ y ∈ comps, Proper y) (hx : x ≠ [] ∧ slash ∉ x) :
    ∀ y ∈ enter comps x, Proper y := by
  unfold enter
  split_ifs with hdot hdotdot
  · exact hcomps
  · exact fun y hy => hcomps y (List.dropLast_subset _ hy)
  · intro y hy
    rcases List.mem_append.mp hy with hy | hy
    · exact hcomps y hy
    · rw [List.mem_singleton.mp hy]
      exact ⟨hx.1, hx.2, hdot, hdotdot⟩

theorem proper_foldl_enter (hcomps : ∀ y ∈ comps, Proper y)
    (hread : ∀ x ∈ read, x ≠ [] ∧ slash ∉ x) : ∀ y ∈ read.foldl enter comps, Proper y := by
  induction read generalizing comps with
  | nil => exact hcomps
  | cons x read ih =>
    exact ih (proper_enter hcomps (hread x List.mem_cons_self))
      fun y hy => hread y (List.mem_cons_of_mem _ hy)

theorem normalise_isNormal (p : Str) : IsNormal (normalise p) :=
  ⟨_, proper_foldl_enter (by simp) fun _ hx => mem_components hx, rfl⟩

/-- While everything has room, the code goes through the lexical paths. -/
theorem Holds.foldl (h : Holds w comps) (hread : ∀ x ∈ read, x ≠ [] ∧ slash ∉ x)
    (hroom : ∀ r, r <+: read → (absolute (r.foldl enter comps)).length ≤ 127) :
    Holds (read.foldl segmentPath w) (read.foldl enter comps) := by
  induction read generalizing w comps with
  | nil => exact h
  | cons x read ih =>
    have hx := hread x List.mem_cons_self
    have hstep : Holds (segmentPath w x) (enter comps x) := by
      have hfirst := hroom [x] (by simp)
      rw [List.foldl_cons, List.foldl_nil] at hfirst
      unfold enter at hfirst ⊢
      unfold segmentPath
      split_ifs at hfirst ⊢
      · exact h
      · exact h.pop
      · rw [absolute_concat_eq, List.length_append] at hfirst
        exact h.append hx hfirst
    apply ih hstep fun y hy => hread y (List.mem_cons_of_mem _ hy)
    intro r hr
    exact hroom (x :: r) (List.cons_prefix_cons.mpr ⟨rfl, hr⟩)

/-- The components that the lines of the input are added to. -/
def start (cwd input : Str) : List Str := if input.head? = some slash then [] else components cwd

theorem components_meant (cwd input : Str) :
    components (meant cwd input) = start cwd input ++ components input := by
  unfold meant start
  split_ifs
  · rfl
  · exact components_append_slash cwd input

theorem IsNormal.components (h : IsNormal cwd) :
    (∀ x ∈ components cwd, Proper x) ∧ cwd = absolute (Lookup.components cwd) := by
  obtain ⟨comps, hcomps, rfl⟩ := h
  rw [components_absolute fun x hx => ⟨(hcomps x hx).nonempty, (hcomps x hx).no_slash⟩]
  exact ⟨hcomps, rfl⟩

theorem proper_start (h : IsNormal cwd) (input : Str) : ∀ x ∈ start cwd input, Proper x := by
  unfold start
  split_ifs
  · simp
  · exact h.components.1

/-- The base path. -/
theorem holds_base (h : IsNormal cwd) (input : Str) :
    Holds (basePath cwd input) (start cwd input) := by
  have hproper := proper_start h input
  have hnames : ∀ x ∈ start cwd input, x ≠ [] ∧ slash ∉ x := fun x hx =>
    ⟨(hproper x hx).nonempty, (hproper x hx).no_slash⟩
  suffices basePath cwd input = directory (start cwd input) from this ▸ holds_directory hnames
  unfold start at hnames ⊢
  unfold basePath
  obtain ⟨-, hcwd⟩ := h.components
  by_cases habsolute : input.head? = some slash
  · rw [if_pos habsolute, if_pos habsolute]
    rfl
  · rw [if_neg habsolute] at hnames ⊢
    rw [if_neg habsolute]
    -- only the root ends in a slash
    rcases List.eq_nil_or_concat' (Lookup.components cwd) with hroot | ⟨init, x, hinit⟩
    · rw [hroot] at hcwd ⊢
      rw [hcwd]
      rfl
    · have hx := hnames x (by rw [hinit]; simp)
      rw [directory_eq (by rw [hinit]; simp), ← hcwd, if_neg]
      rw [hcwd, hinit, absolute_concat_eq, List.getLast?_append_of_ne_nil _ hx.1]
      exact fun hlast => hx.2 (List.mem_of_getLast? hlast)

theorem resolvePath_fits (stack : ℕ → UInt8) (hnormal : IsNormal cwd) (hcwd : 0 ∉ cwd)
    (hinput : 0 ∉ input) (hfits : Fits cwd input) :
    (resolvePath stack cwd input).dest = normalise (meant cwd input) := by
  have hstart := @foldl_enter_proper [] _ (proper_start hnormal input)
  rw [List.nil_append] at hstart
  have hfold := (holds_base hnormal input).foldl (fun x hx => mem_components hx) fun r hr => by
    have hlen := hfits.2 (start cwd input ++ r)
      (by rw [components_meant]; exact (List.prefix_append_right_inj _).mpr hr)
    rwa [List.foldl_append, hstart] at hlen
  rw [dest_resolvePath stack hcwd hinput, hfold.cleanup, normalise, components_meant,
    List.foldl_append, hstart]

/-! ## Short paths -/

theorem length_directory (comps : List Str) :
    (directory comps).length = 1 + (comps.map fun x => x.length + 1).sum := by
  simp [directory, List.length_flatMap, add_comm]

theorem length_directory_enter (comps : List Str) (x : Str) :
    (directory (enter comps x)).length ≤ (directory comps).length + (x.length + 1) := by
  unfold enter
  split_ifs
  · omega
  · have hsum := (comps.dropLast_sublist.map fun x : Str => x.length + 1).sum_le_sum
      fun _ _ => Nat.zero_le _
    rw [length_directory, length_directory]
    omega
  · rw [directory_concat]
    simp only [List.length_append, List.length_singleton]
    omega

theorem length_absolute_le (comps : List Str) :
    (absolute comps).length ≤ (directory comps).length := by
  by_cases h : comps = []
  · rw [h]
    rfl
  · rw [directory_eq h, List.length_append]
    omega

theorem length_foldl_enter (comps read : List Str) :
    (absolute (read.foldl enter comps)).length ≤
      (directory comps).length + (read.map fun x => x.length + 1).sum := by
  induction read generalizing comps with
  | nil => exact length_absolute_le comps
  | cons x read ih =>
    have hstep := length_directory_enter comps x
    have hrest := ih (enter comps x)
    rw [List.foldl_cons, List.map_cons, List.sum_cons]
    omega

theorem fits_of_short (h : cwd.length + input.length + 2 ≤ 126) : Fits cwd input := by
  refine ⟨fun _ => by omega, fun read hread => ?_⟩
  have hmeant : (meant cwd input).length ≤ cwd.length + input.length + 1 := by
    unfold meant
    split_ifs
    · omega
    · simp only [List.length_append, List.length_cons]
      omega
  have hsum := (hread.sublist.map fun x : Str => x.length + 1).sum_le_sum
    fun _ _ => Nat.zero_le _
  have hcomps := components_length_le (meant cwd input)
  have hlen := length_foldl_enter [] read
  rw [show (directory []).length = 1 from rfl] at hlen
  omega

/-! ## Every line -/

variable {k : Linked} {gCwd : Str}

theorem forall_mem_ite {α : Type} {P : α → Prop} {c : Prop} [Decidable c] {a b : Option α}
    (ha : ∀ r ∈ a, P r) (hb : ∀ r ∈ b, P r) : ∀ r ∈ if c then a else b, P r := by
  split_ifs
  · exact ha
  · exact hb

/-- What is resolved is a part of the line. -/
theorem zero_not_mem_pathOf {buf : Str} (hbuf : 0 ∉ buf) : ∀ r ∈ pathOf k buf, 0 ∉ r.2 := by
  have hnone : ∀ r ∈ (none : Option (Bool × Str)), 0 ∉ r.2 := by simp
  have hsome : ∀ {isCd : Bool} {target : Str}, 0 ∉ target → ∀ r ∈ some (isCd, target), 0 ∉ r.2 := by
    intro isCd target htarget r hr
    obtain rfl := Option.mem_some.mp hr
    exact htarget
  have hdrop : ∀ n, 0 ∉ buf.drop n := fun n hmem => hbuf (List.mem_of_mem_drop hmem)
  have hword : 0 ∉ ((buf.drop 6).takeWhile (· ≠ 0x20)).take 127 := fun hmem =>
    hdrop 6 ((List.takeWhile_prefix _).subset (List.mem_of_mem_take hmem))
  have hlist : 0 ∉ if buf[3]? = some 0x20 then buf.drop 4 else [] := by
    split_ifs
    · exact hdrop 4
    · exact List.not_mem_nil
  unfold pathOf
  apply forall_mem_ite hnone
  apply forall_mem_ite (forall_mem_ite (hsome hword) hnone)
  apply forall_mem_ite (forall_mem_ite (hsome (hdrop 6)) hnone)
  apply forall_mem_ite hnone
  apply forall_mem_ite hnone
  apply forall_mem_ite (forall_mem_ite (hsome hlist) hnone)
  apply forall_mem_ite (forall_mem_ite (hsome (hdrop 5)) hnone)
  apply forall_mem_ite (hsome (hdrop 3))
  apply forall_mem_ite (hsome hbuf)
  apply forall_mem_ite (hsome hbuf)
  exact forall_mem_ite (hsome (by decide)) hnone

theorem Line.run_isNormal {l : Line} (hnormal : IsNormal gCwd) (hcwd : 0 ∉ gCwd)
    (hfits : l.Fits k gCwd) : IsNormal (l.run k gCwd) ∧ 0 ∉ l.run k gCwd := by
  unfold Line.run
  split
  case h_1 target hpath =>
    have htarget : 0 ∉ target := zero_not_mem_pathOf l.not_zero _ hpath
    have hdest : IsNormal (resolvePath l.stack gCwd target).dest := by
      rw [resolvePath_fits l.stack hnormal hcwd htarget (hfits _ _ hpath)]
      exact normalise_isNormal _
    dsimp only
    split_ifs
    · exact ⟨hdest, zero_not_mem_dest _ _ _⟩
    · exact ⟨hnormal, hcwd⟩
    · exact ⟨hdest, zero_not_mem_dest _ _ _⟩
  · exact ⟨hnormal, hcwd⟩

theorem foldl_run_isNormal {lines : List Line} (hnormal : IsNormal gCwd) (hcwd : 0 ∉ gCwd)
    (hfits : Always (fun gCwd l => some (l.run k gCwd)) (fun gCwd l => l.Fits k gCwd) gCwd lines) :
    IsNormal (lines.foldl (Line.run k) gCwd) := by
  induction lines generalizing gCwd with
  | nil => exact hnormal
  | cons l lines ih =>
    have hstep := Line.run_isNormal hnormal hcwd hfits.1
    exact ih hstep.1 hstep.2 (hfits.2 _ rfl)

/-- A short path comes out normalised, and while the paths of the lines fit into the buffer, the
shell stays in a normalised path. -/
theorem resolvePath_normalises (k : Linked) (lines : List Line) :
    (∀ (stack : ℕ → UInt8) (cwd input : Str), IsNormal cwd → 0 ∉ cwd → 0 ∉ input →
      cwd.length + input.length + 2 ≤ 126 →
        (resolvePath stack cwd input).dest = normalise (meant cwd input) ∧
          IsNormal (resolvePath stack cwd input).dest) ∧
      (Always (fun gCwd l => some (l.run k gCwd)) (fun gCwd l => l.Fits k gCwd) [slash] lines →
        IsNormal (lines.foldl (Line.run k) [slash])) := by
  constructor
  · intro stack cwd input hnormal hcwd hinput hlen
    rw [resolvePath_fits stack hnormal hcwd hinput (fits_of_short hlen)]
    exact ⟨rfl, normalise_isNormal _⟩
  · exact foldl_run_isNormal ⟨[], by simp, rfl⟩ (by decide)

/-- The kernel has all of them. -/
def allLinked : Linked := ⟨true, true, true, true, true, true⟩

/-- `cd` into four directories with names of 30 and 31 letters. -/
def cdDeep : Line where
  buf := str "cd " ++ List.replicate 30 0x61 ++ [slash] ++ List.replicate 30 0x62 ++ [slash] ++
    List.replicate 30 0x63 ++ [slash] ++ List.replicate 31 0x64
  not_zero := by decide +kernel
  length_le := by decide +kernel
  stack _ := 0
  opened := true

def cdHidden : Line where
  buf := str "cd .x"
  not_zero := by decide
  length_le := by decide
  stack _ := 0
  opened := true

/-- From `/a` the path `../b` leads to `/b`, and the shell can go there. -/
theorem resolvePath_normalises_up :
    (resolvePath (fun _ => 0) (str "/a") (str "../b")).dest = normalise (str "/a/../b") ∧
      IsNormal ([cdDeep].foldl (Line.run allLinked) [slash]) := by
  constructor
  · exact ((resolvePath_normalises allLinked [cdDeep]).1 (fun _ => 0) (str "/a") (str "../b")
      ⟨[str "a"], fun x hx => by
        rw [List.mem_singleton.mp hx]
        exact ⟨by decide, by decide, by decide, by decide⟩, by decide⟩
      (by decide) (by decide) (by decide)).1
  · apply (resolvePath_normalises allLinked [cdDeep]).2
    refine ⟨fun isCd target hpath => ⟨fun _ => by decide, fun read hread => ?_⟩, fun _ _ => trivial⟩
    have htarget : pathOf allLinked cdDeep.buf = some (true, cdDeep.buf.drop 3) := by
      decide +kernel
    obtain rfl : cdDeep.buf.drop 3 = target :=
      (Prod.mk.inj (Option.some.inj (htarget.symm.trans hpath))).2
    have hinits : ∀ read ∈ (components (meant [slash] (cdDeep.buf.drop 3))).inits,
        (absolute (read.foldl enter [])).length ≤ 127 := by decide +kernel
    exact hinits read ((List.mem_inits _ _).mpr hread)

/-- The name `.x` is cut after its dot. -/
theorem cut_to_dot :
    ¬ IsNormal ([cdDeep, cdHidden].foldl (Line.run allLinked) [slash]) := by
  intro h
  have hproper := h.components.1 dot (by decide +kernel)
  exact hproper.ne_dot rfl

end Rhoudveine.Shell
