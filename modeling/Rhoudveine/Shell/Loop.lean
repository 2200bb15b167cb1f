import Rhoudveine.Shell.Commands

/-!
# A session of the init shell

From the first prompt on, the lines that are typed print what the notebook says.
-/

namespace Rhoudveine.Shell
open Fs Lookup Walk Decimal Rhoudveine.Core

variable {answers : ℕ → UInt64}

/-! ## Typed lines -/

theorem typeChar_typed {buf buf' : Str} {c : UInt8} (hzero : 0 ∉ buf) (hlen : buf.length ≤ 127)
    (h : typeChar buf c = some buf') : 0 ∉ buf' ∧ buf'.length ≤ 127 := by
  unfold typeChar at h
  split_ifs at h with hskip hend hback hroom
  · cases h
    exact ⟨hzero, hlen⟩
  · cases h
    refine ⟨fun hmem => hzero (List.mem_of_mem_dropLast hmem), ?_⟩
    rw [List.length_dropLast]
    omega
  · cases h
    refine ⟨fun hmem => ?_, ?_⟩
    · rcases List.mem_append.mp hmem with hold | hnew
      · exact hzero hold
      · exact hskip (Or.inl (List.mem_singleton.mp hnew).symm)
    · rw [List.length_append, List.length_singleton]
      omega
  · cases h
    exact ⟨hzero, hlen⟩

/-- A line is a string of at most 127 bytes. -/
theorem typedLines_typed (keys : List UInt8) {buf : Str} (hzero : 0 ∉ buf)
    (hlen : buf.length ≤ 127) : ∀ l ∈ typedLines buf keys, 0 ∉ l ∧ l.length ≤ 127 := by
  induction keys generalizing buf with
  | nil =>
    intro l hl
    cases hl
  | cons c keys ih =>
    intro l hl
    unfold typedLines at hl
    split at hl
    · rcases List.mem_cons.mp hl with rfl | hl
      · exact ⟨hzero, hlen⟩
      · exact ih List.not_mem_nil (Nat.zero_le _) l hl
    · rename_i hchar
      obtain ⟨hzero', hlen'⟩ := typeChar_typed hzero hlen hchar
      exact ih hzero' hlen' l hl

theorem splitWrite_typed {p : Str} (hzero : 0 ∉ p) :
    0 ∉ (splitWrite p).1 ∧ (splitWrite p).2.length ≤ p.length := by
  unfold splitWrite
  refine ⟨fun hmem => hzero ?_, ?_⟩
  · exact (List.takeWhile_sublist _).subset (List.mem_of_mem_take hmem)
  · dsimp only
    split
    · rw [List.length_tail, List.length_drop]
      omega
    · rw [List.length_drop]
      omega

/-- The path and the text of a command fit into the line they come from. -/
def Command.Typed (c : Command) : Prop := ∀ f, c = .file f → f.Typed

theorem Command.Typed.ite {p : Prop} [Decidable p] {c c' : Command} (hc : c.Typed)
    (hc' : c'.Typed) : (if p then c else c').Typed := by
  split
  · exact hc
  · exact hc'

theorem typed_of_path {c : FileCommand} (hzero : 0 ∉ c.path)
    (hwrite : ∀ filename text, c ≠ .write filename text) : (Command.file c).Typed := by
  rintro f ⟨⟩
  exact ⟨hzero, fun filename text heq => absurd heq (hwrite filename text)⟩

theorem cdTarget_typed {buf target : Str} (hzero : 0 ∉ buf) (h : cdTarget buf = some target) :
    0 ∉ target := by
  unfold cdTarget at h
  split_ifs at h
  · cases h
    exact fun hmem => hzero (List.mem_of_mem_drop hmem)
  · cases h
    exact hzero
  · cases h
    exact hzero
  · cases h
    decide

theorem parse_typed {buf : Str} (hzero : 0 ∉ buf) (hlen : buf.length ≤ 127) :
    (parse buf).Typed := by
  have hdrop (n : ℕ) : 0 ∉ buf.drop n := fun hmem => hzero (List.mem_of_mem_drop hmem)
  have hwrite : (Command.file (.write (splitWrite (buf.drop 6)).1
      (splitWrite (buf.drop 6)).2)).Typed := by
    obtain ⟨hname, htext⟩ := splitWrite_typed (hdrop 6)
    rintro f ⟨⟩
    refine ⟨hname, fun filename text heq => ?_⟩
    cases heq
    rw [List.length_drop] at htext
    omega
  have hcdl : (Command.file (.cdl (if buf[3]? = some 0x20 then buf.drop 4 else []))).Typed := by
    apply typed_of_path
    · simp only [FileCommand.path]
      split
      · exact hdrop 4
      · exact List.not_mem_nil
    · exact fun _ _ heq => by cases heq
  have hmkdir : (Command.file (.mkdir (buf.drop 6))).Typed :=
    typed_of_path (hdrop 6) fun _ _ heq => by cases heq
  have hdump : (Command.file (.dump (buf.drop 5))).Typed :=
    typed_of_path (hdrop 5) fun _ _ heq => by cases heq
  -- the other commands have neither a path nor a text
  have hother {c : Command} (hc : ∀ f, c ≠ .file f) : c.Typed := fun f heq => absurd heq (hc f)
  unfold parse
  apply Command.Typed.ite (hother fun f heq => by cases heq)
  apply Command.Typed.ite (hother fun f heq => by cases heq)
  apply Command.Typed.ite (hother fun f heq => by cases heq)
  apply Command.Typed.ite (hother fun f heq => by cases heq)
  apply Command.Typed.ite hwrite
  apply Command.Typed.ite hmkdir
  apply Command.Typed.ite (hother fun f heq => by cases heq)
  apply Command.Typed.ite (hother fun f heq => by cases heq)
  apply Command.Typed.ite (hother fun f heq => by cases heq)
  apply Command.Typed.ite (hother fun f heq => by cases heq)
  apply Command.Typed.ite (hother fun f heq => by cases heq)
  apply Command.Typed.ite hcdl
  apply Command.Typed.ite hdump
  cases htarget : cdTarget buf with
  | none => exact hother fun f heq => by cases heq
  | some target =>
    exact typed_of_path (cdTarget_typed hzero htarget) fun _ _ heq => by cases heq

/-! ## The loop -/

theorem uptimeNumber_eq (n : UInt64) : uptimeNumber n = some (natNumeral n.toNat) := by
  rw [uptimeNumber, intToStr_digits, Option.map_some, reverse_eq, List.reverse_reverse]

/-- What the clock shows. -/
theorem uptime_eq (ms : UInt64) :
    uptime ms = some (str "Uptime: " ++ natNumeral (ms.toNat / 3600000) ++ str "h " ++
      natNumeral (ms.toNat / 60000 % 60) ++ str "m " ++ natNumeral (ms.toNat / 1000 % 60) ++
      str "s\n") := by
  have hhours : (ms / 1000 / 60 / 60).toNat = ms.toNat / 3600000 := by
    simp only [UInt64.toNat_div, UInt64.reduceToNat, Nat.div_div_eq_div_mul, Nat.reduceMul]
  have hminutes : (ms / 1000 / 60 % 60).toNat = ms.toNat / 60000 % 60 := by
    simp only [UInt64.toNat_mod, UInt64.toNat_div, UInt64.reduceToNat, Nat.div_div_eq_div_mul,
      Nat.reduceMul]
  have hseconds : (ms / 1000 % 60).toNat = ms.toNat / 1000 % 60 := by
    simp only [UInt64.toNat_mod, UInt64.toNat_div, UInt64.reduceToNat]
  unfold uptime
  simp only [uptimeNumber_eq, hhours, hminutes, hseconds, Option.bind_some, Option.map_some]

/-- The shell on the notebook. -/
def onNotebook (_ : Machine) (b : Notebook) (c : FileCommand) : Option (Str × Notebook) :=
  some (b.perform c)

def Notebook.next (b : Notebook) (l : Machine × Str) : Option Notebook :=
  match execute onNotebook l.1 b (parse l.2) with
  | some (.goesOn _ b) => some b
  | _ => none

/-- A line whose command, if it uses the files, is a plain one. -/
def PlainLine (b : Notebook) (l : Machine × Str) : Prop :=
  ∀ c, parse l.2 = .file c → c.Plain b

/-- How a line ends on the files, and on the notebook. -/
inductive SameTurn (answers : ℕ → UInt64) (allocs : ℕ) : Turn Session → Turn Notebook → Prop
  | goesOn {text : Str} {s : Session} {b : Notebook} : Matches answers b s →
      s.vfs.allocs ≤ allocs + 2 → SameTurn answers allocs (.goesOn text s) (.goesOn text b)
  | panics (reason : Str) : SameTurn answers allocs (.panics reason) (.panics reason)
  | off (text : Str) : SameTurn answers allocs (.off text) (.off text)

theorem execute_follows (hfresh : FreshAnswers answers) {fuel : ℕ} (hfuel : 1025 ≤ fuel)
    (m : Machine) {b : Notebook} {s : Session} (h : Matches answers b s) {c : Command}
    (htyped : c.Typed) (hplain : ∀ f, c = .file f → f.Plain b)
    (hpages : ∀ j ≤ s.vfs.allocs + 1, answers j ≠ 0) :
    ∃ turn turn', execute (fileCommand answers fuel) m s c = some turn ∧
      execute onNotebook m b c = some turn' ∧ SameTurn answers s.vfs.allocs turn turn' := by
  have hsame (text : Str) : SameTurn answers s.vfs.allocs (.goesOn text s) (.goesOn text b) :=
    .goesOn h (Nat.le_add_right _ _)
  cases c with
  | nothing => exact ⟨_, _, rfl, rfl, hsame _⟩
  | help => exact ⟨_, _, rfl, rfl, hsame _⟩
  | uptime =>
    simp only [execute, uptime_eq]
    exact ⟨_, _, rfl, rfl, hsame _⟩
  | shutdown =>
    simp only [execute]
    by_cases hreturns : m.acpiReturns
    · simp only [if_pos hreturns]
      exact ⟨_, _, rfl, rfl, hsame _⟩
    · simp only [if_neg hreturns]
      exact ⟨_, _, rfl, rfl, .off _⟩
  | file c =>
    obtain ⟨s', hout, hmatches, hallocs⟩ :=
      fileCommand_follows hfresh hfuel m h (htyped c rfl) (hplain c rfl) hpages
    simp only [execute, hout]
    exact ⟨_, _, rfl, rfl, .goesOn hmatches hallocs⟩
  | diskread p => exact ⟨_, _, rfl, rfl, hsame _⟩
  | reboot =>
    simp only [execute]
    by_cases hreturns : m.acpiReturns
    · simp only [if_pos hreturns]
      exact ⟨_, _, rfl, rfl, hsame _⟩
    · simp only [if_neg hreturns]
      exact ⟨_, _, rfl, rfl, .off _⟩
  | panic reason => exact ⟨_, _, rfl, rfl, .panics _⟩
  | echo p => exact ⟨_, _, rfl, rfl, hsame _⟩
  | unknown => exact ⟨_, _, rfl, rfl, hsame _⟩

theorem shell_follows (hfresh : FreshAnswers answers) {fuel : ℕ} (hfuel : 1025 ≤ fuel)
    (lines : List (Machine × Str)) (htyped : ∀ l ∈ lines, 0 ∉ l.2 ∧ l.2.length ≤ 127)
    {b : Notebook} {s : Session} (h : Matches answers b s)
    (hplain : Always Notebook.next PlainLine b lines)
    (hpages : ∀ j < s.vfs.allocs + 2 * lines.length, answers j ≠ 0) :
    ∃ out, shell (fileCommand answers fuel) s lines = some out ∧
      shell onNotebook b lines = some out := by
  induction lines generalizing b s with
  | nil => exact ⟨_, rfl, rfl⟩
  | cons l lines ih =>
    obtain ⟨m, buf⟩ := l
    obtain ⟨hline, hrest⟩ := hplain
    obtain ⟨hzero, hlen⟩ := htyped (m, buf) List.mem_cons_self
    rw [List.length_cons] at hpages
    obtain ⟨turn, turn', hturn, hturn', hsame⟩ := execute_follows hfresh hfuel m h (c := parse buf)
      (parse_typed hzero hlen) hline fun j hj => hpages j (by omega)
    unfold shell
    rw [hturn, hturn', Option.bind_some, Option.bind_some]
    cases hsame with
    | goesOn hmatches hallocs =>
      rename_i text s' b'
      have hnext : b.next (m, buf) = some b' := by
        unfold Notebook.next
        rw [hturn']
      obtain ⟨out, hout, hout'⟩ := ih (fun l hl => htyped l (List.mem_cons_of_mem _ hl)) hmatches
        (hrest b' hnext) fun j hj => hpages j (by omega)
      refine ⟨(text :: out.1, out.2), ?_, ?_⟩
      · simp only [hout, Option.map_some]
      · simp only [hout', Option.map_some]
    | panics reason => exact ⟨_, rfl, rfl⟩
    | off text => exact ⟨_, rfl, rfl⟩

/-! ## From the first prompt -/

/-- The root directory shows an empty notebook. -/
theorem shows_ramfsRoot (answers : ℕ → UInt64) (frames : UInt64 → ℕ → UInt8) :
    Shows answers [] (ramfsRoot frames) := by
  have hleaf (n : ℕ) (y : Str) : ramfsFinddir (ramfsRoot frames) n y = none := by
    by_contra hsome
    obtain ⟨c, hc⟩ := Option.ne_none_iff_exists'.mp hsome
    obtain ⟨d, i, -, hchild⟩ := ramfsFinddir_dir hc
    rw [ramfsRoot_data] at hchild
    cases hchild
  have hcount : (ramfsRoot frames).ramfsNodeCount = 1 := by
    rw [ramfsRoot_eq]
    rfl
  have hzero {n : ℕ} (hn : n ≠ 0) := ramfsRoot_node frames hn
  have hfile {n : ℕ} (hn : ¬ ((ramfsRoot frames).ramfsNodePool n).isDir) : n ≠ 0 := by
    rintro rfl
    exact hn (oneTree_ramfsRoot frames).root_dir
  have huntouched : Untouched (ramfsRoot frames) :=
    { data := fun n hn => by rw [hzero (hfile hn)]; rfl
      size := fun n hn => by rw [hzero (hfile hn)]; rfl
      allocs := by rw [ramfsRoot_eq]; rfl
      fileDataCount := by rw [ramfsRoot_eq]; rfl
      closed := fun fd => by rw [ramfsRoot_eq]; rfl
      unused := fun n hn => by rw [hzero (by omega)]; rfl
      count_le := hcount.trans_le (by decide) }
  have hmount : vfsStep answers (vfsInit frames) (.mount (str "/") (str "ramfs"))
      (ramfsRoot frames) := by
    refine ⟨.ofValue 0, ?_⟩
    rw [vfsCall, ramfsRoot_mount]
    rfl
  have hrun : Run (treeStep answers) (vfsInit frames)
      [.vfs (.call (.mount (str "/") (str "ramfs")))] (ramfsRoot frames) := .cons hmount (.nil _)
  refine
    { tree := oneTree_ramfsRoot frames
      tidy := Tidy.run hrun
      count := hcount
      walk_eq := fun comps => ?_
      name := fun i e hi => by cases hi
      flags := fun i e hi => by cases hi
      placed := fun e he => absurd he List.not_mem_nil
      child := fun d c => ?_
      free := huntouched.unused
      agrees := ?_ }
  · cases comps with
    | nil => rfl
    | cons x xs =>
      rw [walk, hleaf]
      rfl
  · constructor
    · rintro ⟨i, -, -, -, b, -, hchild⟩
      rw [ramfsRoot_data] at hchild
      cases hchild
    · rintro ⟨i, e, -, hi, -⟩
      cases hi
  · have hcontents : Pages.contents [] = fun _ => .empty := by
      funext n
      cases n <;> rfl
    rw [hcontents]
    exact agrees_start huntouched

/-- A session over the empty tree prints what the notebook says. -/
theorem init_is_notebook (hfresh : FreshAnswers answers) {fuel : ℕ} (hfuel : 1025 ≤ fuel)
    (frames : UInt64 → ℕ → UInt8) (machines : ℕ → Machine) (keys : List UInt8)
    (hplain : Always Notebook.next PlainLine ⟨[], []⟩ (sessionLines machines keys))
    (hpages : ∀ j < 2 * (typedLines [] keys).length, answers j ≠ 0) :
    ∃ out, shell (fileCommand answers fuel) ⟨[slash], ramfsRoot frames⟩
        (sessionLines machines keys) = some out ∧
      shell onNotebook ⟨[], []⟩ (sessionLines machines keys) = some out := by
  have hlines : (sessionLines machines keys).length = (typedLines [] keys).length := by
    rw [sessionLines, List.length_map, List.length_zipIdx]
  refine shell_follows hfresh hfuel _ (fun l hl => ?_) ?_ hplain fun j hj => hpages j ?_
  · obtain ⟨⟨buf, i⟩, hmem, rfl⟩ := List.mem_map.mp hl
    refine typedLines_typed keys List.not_mem_nil (Nat.zero_le _) buf ?_
    exact List.mem_of_getElem? (List.mem_zipIdx_iff_getElem?.mp hmem)
  · exact ⟨rfl, fun x hx => absurd hx List.not_mem_nil, by simp [slash],
      shows_ramfsRoot answers frames⟩
  · have hallocs : (ramfsRoot frames).allocs = 0 := by
      rw [ramfsRoot_eq]
      rfl
    rw [hlines, hallocs, Nat.zero_add] at hj
    exact hj

theorem plainLine_of_short {b : Notebook} {l : Machine × Str} {c : FileCommand}
    (hparse : parse l.2 = .file c) (hlen : (absolute b.cwd).length + c.path.length + 2 ≤ 126)
    (hshort : ∀ x ∈ goTo b.cwd c.path, x.length ≤ 31) (htext : ∀ filename, c ≠ .write filename []) :
    PlainLine b l := by
  intro c' hc'
  obtain rfl := Command.file.inj (hparse.symm.trans hc')
  exact ⟨fits_of_short hlen, hshort, htext⟩

def idle : Machine where
  stack _ := 0
  uptimeMs := 0
  ahciInitialized := false
  readSector _ := none
  acpiReturns := false

def noteKeys : List UInt8 := str "mkdir d\rcd d\rwrite f hi\rcdl\rdump f\r"

theorem noteLines (machines : ℕ → Machine) :
    sessionLines machines noteKeys = [(machines 0, str "mkdir d"), (machines 1, str "cd d"),
      (machines 2, str "write f hi"), (machines 3, str "cdl"), (machines 4, str "dump f")] := by
  have hlines : typedLines [] noteKeys =
      [str "mkdir d", str "cd d", str "write f hi", str "cdl", str "dump f"] := by
    decide +kernel
  rw [sessionLines, hlines]
  rfl

theorem notePlain :
    Always Notebook.next PlainLine ⟨[], []⟩ (sessionLines (fun _ => idle) noteKeys) := by
  rw [noteLines]
  refine .cons (t := ⟨[], [([str "d"], .dir)]⟩) (by decide +kernel)
    (plainLine_of_short (c := .mkdir (str "d")) (by decide +kernel) (by decide +kernel)
      (by decide +kernel) fun _ heq => by cases heq) ?_
  refine .cons (t := ⟨[str "d"], [([str "d"], .dir)]⟩) (by decide +kernel)
    (plainLine_of_short (c := .cd (str "d")) (by decide +kernel) (by decide +kernel)
      (by decide +kernel) fun _ heq => by cases heq) ?_
  refine .cons (t := ⟨[str "d"], [([str "d"], .dir), ([str "d", str "f"], .file (str "hi\n"))]⟩)
    (by decide +kernel)
    (plainLine_of_short (c := .write (str "f") (str "hi")) (by decide +kernel) (by decide +kernel)
      (by decide +kernel) (fun filename h => absurd (FileCommand.write.inj h).2 (by decide))) ?_
  refine .cons (t := ⟨[str "d"], [([str "d"], .dir), ([str "d", str "f"], .file (str "hi\n"))]⟩)
    (by decide +kernel)
    (plainLine_of_short (c := .cdl []) (by decide +kernel) (by decide +kernel)
      (by decide +kernel) fun _ heq => by cases heq) ?_
  refine .cons (t := ⟨[str "d"], [([str "d"], .dir), ([str "d", str "f"], .file (str "hi\n"))]⟩)
    (by decide +kernel)
    (plainLine_of_short (c := .dump (str "f")) (by decide +kernel) (by decide +kernel)
      (by decide +kernel) fun _ heq => by cases heq) ?_
  trivial

theorem init_is_notebook_note :
    shell (fileCommand answers₁ 1025) ⟨[slash], ramfsRoot fun _ _ => 0⟩
        (sessionLines (fun _ => idle) noteKeys) =
      some ([str "Directory created\n", str "Changed directory to: /d\n",
        str "Wrote bytes to /d/f\n", str "f\n", str "hi\n\n"], .prompt) := by
  have hpages : ∀ j < 2 * (typedLines [] noteKeys).length, answers₁ j ≠ 0 := by
    have hlines : 2 * (typedLines [] noteKeys).length = 10 := by decide +kernel
    rw [hlines]
    decide
  obtain ⟨out, hout, hnotebook⟩ := init_is_notebook freshAnswers₁ (le_refl 1025)
    (fun _ _ => 0) (fun _ => idle) noteKeys notePlain hpages
  have hsays : shell onNotebook ⟨[], []⟩ (sessionLines (fun _ => idle) noteKeys) =
      some ([str "Directory created\n", str "Changed directory to: /d\n",
        str "Wrote bytes to /d/f\n", str "f\n", str "hi\n\n"], .prompt) := by
    decide +kernel
  rw [hout, ← hnotebook, hsays]

end Rhoudveine.Shell
