import Rhoudveine.Tar.RoundTrip
import Rhoudveine.Fs.Whole

/-!
# The root file system

`rootfs_extract_callback`, and the archives it is meant for.
-/

namespace Rhoudveine.Tar
open Memory
open Fs hiding Holds

variable (answers : ℕ → UInt64)

/-! ## The callback -/

/-- `struct tar_extract_context`. -/
structure ExtractContext where
  fileCount : ℤ
  dirCount : ℤ
  errorCount : ℤ

/-- `abspath`, a buffer of 512 bytes. -/
def abspath (filename : Str) : Str :=
  if filename.head? = some slash then filename.take 511 else slash :: filename.take 510

/-- What the callback does for a directory. -/
def extractDirectory (path : Str) (st : Vfs × ExtractContext) : Option (Vfs × ExtractContext) :=
  let dirname := path.take 255
  let dirname := if dirname.getLast? = some slash then dirname.dropLast else dirname
  if dirname = [] ∨ dirname = str "." ∨ dirname = str "/" then some st
  else
    (vfsMkdir st.1 dirname).map fun made =>
      (made.2, if made.1 = 0 then { st.2 with dirCount := st.2.dirCount + 1 } else st.2)

/-- The directory of a file is made before each file. -/
def makeParent (path : Str) (s : Vfs) : Option Vfs :=
  let parent := path.take 255
  match lastSlash parent with
  | none => some s
  | some i => if i = 0 then some s else (vfsMkdir s (parent.take i)).map Prod.snd

/-- What the callback does for a file. -/
def extractFile (path : Str) (data : ℕ → UInt8) (size : UInt64) (st : Vfs × ExtractContext) :
    Option (Vfs × ExtractContext) :=
  let failed := { st.2 with errorCount := st.2.errorCount + 1 }
  (makeParent path st.1).bind fun s =>
    (vfsOpen s path 0x0101).bind fun opened =>
      if opened.1 < 0 then some (opened.2, failed)
      else
        (vfsWrite answers opened.2 opened.1 data size).map fun written =>
          ((vfsClose written.2 opened.1).2,
            if written.1 = size.toUInt32.toInt32.toInt then
              { st.2 with fileCount := st.2.fileCount + 1 }
            else failed)

/-- `rootfs_extract_callback`, which always returns 0; `none` is a crash. -/
def rootfsExtractCallback (filename : Str) (data : Option (ℕ → UInt8)) (size : UInt64)
    (st : Vfs × ExtractContext) : Option (Vfs × ExtractContext) :=
  if filename = [] ∨ filename = str "." ∨ filename = str "./" then some st
  else
    let filename := if filename.take 2 = str "./" then filename.drop 2 else filename
    match data with
    | none => extractDirectory (abspath filename) st
    | some data => extractFile answers (abspath filename) data size st

/-- The string at `a`, or its first `n` bytes. -/
def readStr (m : Memory) (a : UInt64) : ℕ → Str
  | 0 => []
  | n + 1 => if m a = 0 then [] else m a :: readStr m (a + 1) n

/-- The callback on the pointers it gets; it looks at no more than 513 bytes of the name. -/
def rootfsCall (tar : Memory) (c : Call) (st : Option (Vfs × ExtractContext)) :
    ℤ × Option (Vfs × ExtractContext) :=
  (0, st.bind (rootfsExtractCallback answers (readStr tar c.filename 513)
    (c.data.map fun d i => tar (d + UInt64.ofNat i)) c.size))

/-! ## The archives -/

/-- How a path starts in an archive. -/
inductive Lead
  | bare
  | dot
  | root

def Lead.bytes : Lead → Str
  | bare => []
  | dot => str "./"
  | root => str "/"

/-- A member by the components of its path.  The path `./` of the root has none. -/
structure Entry where
  lead : Lead
  comps : List Str
  trailing : Bool
  kind : Kind
  mode : List UInt8
  sizeEnd : UInt8
  times : List UInt8
  owner : List UInt8

namespace Entry

/-- The name in the header: the components with slashes between them. -/
def name (e : Entry) : Str :=
  e.lead.bytes ++ (absolute e.comps).tail ++ if e.trailing then [slash] else []

/-- A path below 100 bytes is stored in the name field. -/
def member (e : Entry) : Member := ⟨[], e.name, e.kind, e.mode, e.sizeEnd, e.times, e.owner⟩

structure WellFormed (e : Entry) : Prop where
  valid : e.member.Valid
  name_length : e.name.length < 100
  component : ∀ x ∈ e.comps, Component x
  no_dot : ∀ x ∈ e.comps, x ≠ str "."
  root_dir : e.comps = [] → e.kind = .dir ∧ e.trailing = false
  trailing_dir : e.trailing = true → e.kind = .dir
  content_length : e.kind.content.length ≤ 512 * 1024

/-- The nodes that the callback asks ramfs for: a file below a directory takes a second one, for
the directory. -/
def nodes (e : Entry) : ℕ :=
  match e.kind with
  | .dir => if e.comps = [] then 0 else 1
  | .file _ _ => if e.comps.length = 1 then 1 else 2

/-- The pages that the callback asks ramfs for. -/
def pages (e : Entry) : ℕ :=
  match e.kind with
  | .dir => 0
  | .file _ content => pagesTaken content.length

end Entry

/-- Distinct members, each directory before what is in it.  No more than 63 of them means no more
than 64 in a directory. -/
structure WellFormed (es : List Entry) : Prop where
  entries : ∀ e ∈ es, e.WellFormed
  distinct : (es.map Entry.comps).Nodup
  parents : ∀ pre e post, es = pre ++ e :: post → ∀ init x, e.comps = init ++ [x] → init ≠ [] →
    ∃ d ∈ pre, d.comps = init ∧ d.kind = .dir
  few : (es.filter fun e => e.comps ≠ []).length ≤ 63

def NodesFit (es : List Entry) : Prop := (es.map Entry.nodes).sum + 1 ≤ maxRamfsNodes

instance (es : List Entry) : Decidable (NodesFit es) := inferInstanceAs (Decidable (_ ≤ _))

/-- `free` pages are left. -/
def PagesFit (free : ℕ) (es : List Entry) : Prop := (es.map Entry.pages).sum ≤ free

instance (free : ℕ) (es : List Entry) : Decidable (PagesFit free es) :=
  inferInstanceAs (Decidable (_ ≤ _))

/-! ## The outcome -/

/-- The path of the member opens; a file reads back as its bytes. -/
def ReadsBack (s : Vfs) (e : Entry) : Prop :=
  ∃ n fd s', vfsResolvePath s (absolute e.comps) = .node n ∧
    vfsOpen s (absolute e.comps) 0 = some (fd, s') ∧ 0 ≤ fd ∧
    match e.kind with
    | .dir => (s.ramfsNodePool n).isDir
    | .file _ content => ∀ count : UInt64, content.length ≤ count.toUInt32.toNat →
        ∃ s'', vfsRead s' fd count = some ((content.length : ℤ), content, s'')

/-- `tar_extract_all` with `rootfs_extract_callback` on a fresh ramfs root ends without an error
and leaves every member to be read back. -/
def Installs (es : List Entry) (trailer : List UInt8) (frames : UInt64 → ℕ → UInt8) : Prop :=
  ∃ fuel log s ctx,
    tarExtractAll (archive (es.map Entry.member) trailer)
      (UInt64.ofNat (encode (es.map Entry.member) trailer).length)
      (some (rootfsCall answers (archive (es.map Entry.member) trailer))) fuel
      (some (ramfsRoot frames, ⟨0, 0, 0⟩)) = some (0, log, some (s, ctx)) ∧
    ctx.errorCount = 0 ∧ ∀ e ∈ es, ReadsBack s e

/-! ## Names -/

theorem readStr_cStr {m : Memory} {a : UInt64} {s : Str} (h : CStr m a s) {n : ℕ}
    (hn : s.length < n) : readStr m a n = s := by
  induction s generalizing a n with
  | nil =>
    obtain ⟨n, rfl⟩ := Nat.exists_eq_succ_of_ne_zero (Nat.pos_iff_ne_zero.mp hn)
    exact if_pos h.2.1
  | cons b s ih =>
    obtain ⟨n, rfl⟩ := Nat.exists_eq_succ_of_ne_zero (Nat.pos_iff_ne_zero.mp (Nat.zero_lt_of_lt hn))
    obtain ⟨hzero, hfirst, hrest⟩ := h
    obtain ⟨hb, hs⟩ := not_or.mp (List.mem_cons.not.mp hzero)
    have hne : m a ≠ 0 := hfirst ▸ Ne.symm hb
    rw [readStr, if_neg hne, ih ⟨hs, hrest⟩ (Nat.lt_of_succ_lt_succ hn), hfirst]

theorem absolute_eq_cons (comps : List Str) :
    absolute comps = slash :: (absolute comps).tail := by
  cases comps with
  | nil => rfl
  | cons x xs => rfl

/-- A path of components does not start with a slash of its own. -/
theorem head_tail_absolute {comps : List Str} (hcomps : ∀ x ∈ comps, Component x) :
    (absolute comps).tail.head? ≠ some slash := by
  cases comps with
  | nil => simp [absolute]
  | cons x xs =>
    have hx := hcomps x List.mem_cons_self
    obtain ⟨c, p, rfl⟩ := List.exists_cons_of_ne_nil hx.nonempty
    intro heq
    obtain rfl : c = slash := Option.some.inj heq
    exact hx.no_slash List.mem_cons_self

theorem getLast_absolute {init : List Str} {x : Str} (hx : Component x) :
    (absolute (init ++ [x])).getLast? ≠ some slash := by
  rw [absolute_concat]
  intro hlast
  have hmem : slash ∈ x := by
    rw [List.getLast?_append_cons, List.getLast?_cons_of_ne_nil hx.nonempty] at hlast
    exact List.mem_of_getLast? hlast
  exact hx.no_slash hmem

end Rhoudveine.Tar
