import Rhoudveine.Fs.Vfs
import Rhoudveine.Lib.Run

/-!
# File descriptors

The descriptor calls of `vfs.c` over any file systems: what path resolution, `vfs_create` and the
operations of a node do is a parameter.  The table `g_fds` is private to `vfs.c`.
-/

namespace Rhoudveine.Fs.Descriptors
open Search

variable {σ ν : Type*}

/-! ## The calls -/

/-- `struct file_descriptor`. -/
structure Descriptor (ν : Type*) where
  node : Option ν
  offset : UInt64
  flags : UInt32
  refcount : ℤ

/-- The file systems with state `σ` and nodes `ν`.  An operation of a node is `none` where its
pointer is null, and a call that crashes returns `none`. -/
structure FileOps (σ ν : Type*) where
  resolvePath : σ → Str → Option (Option ν × σ)
  create : σ → Str → Option (ℤ × σ)
  size : σ → ν → UInt32
  openOp : σ → ν → Option (UInt32 → Option (ℤ × σ))
  closeOp : σ → ν → Option (Option σ)
  readOp : σ → ν → Option (UInt64 → UInt32 → Option (ℤ × List UInt8 × σ))
  writeOp : σ → ν → Option (UInt64 → UInt32 → (ℕ → UInt8) → Option (ℤ × σ))
  readdirOp : σ → ν → Option (UInt32 → Option (Option Dirent × σ))

structure State (σ ν : Type*) where
  files : σ
  gFds : ℕ → Descriptor ν

def State.setFd (st : State σ ν) (fd : ℕ) (file : Descriptor ν) : State σ ν :=
  { st with gFds := Function.update st.gFds fd file }

/-- The table after `vfs_init`. -/
def start (files : σ) : State σ ν := ⟨files, fun _ => ⟨none, 0, 0, 0⟩⟩

/-- The check at the head of every call that names a descriptor. -/
def liveFd (st : State σ ν) (fd : ℤ) : Option (ℕ × Descriptor ν) :=
  if fd < 0 ∨ fd ≥ maxFds ∨ (st.gFds fd.toNat).refcount = 0 then none
  else some (fd.toNat, st.gFds fd.toNat)

/-- The first free descriptor from 3 on. -/
def freeFd (st : State σ ν) : Option ℕ :=
  firstSome (fun i => if (st.gFds i).refcount = 0 then some i else none) (maxFds - 3) 3

variable (ops : FileOps σ ν)

/-- The node that `vfs_open` opens: what the path resolves to, created if need be. -/
def findNode (files : σ) (path : Str) (flags : UInt32) : Option (Option ν × σ) :=
  match ops.resolvePath files path with
  | none => none
  | some (some node, files) => some (some node, files)
  | some (none, files) =>
    if flags &&& oCreat = 0 then some (none, files)
    else
      match ops.create files path with
      | none => none
      | some (r, files) => if r ≠ 0 then some (none, files) else ops.resolvePath files path

/-- The node's own open, if it has one. -/
def callOpen (files : σ) (node : ν) (flags : UInt32) : Option (ℤ × σ) :=
  match ops.openOp files node with
  | none => some (0, files)
  | some open_ => open_ flags

/-- The part of `vfs_open` after the node is found. -/
def openNode (st : State σ ν) (files : σ) (node : ν) (flags : UInt32) : Option (ℤ × State σ ν) :=
  match freeFd st with
  | none => some (-1, { st with files := files })
  | some fd =>
    match callOpen ops files node flags with
    | none => none
    | some (r, files) =>
      if r ≠ 0 then some (-1, { st with files := files })
      else
        let offset := if flags &&& oAppend ≠ 0 then (ops.size files node).toUInt64 else 0
        some (fd, ({ st with files := files } : State σ ν).setFd fd
          { node := some node, offset := offset, flags := flags, refcount := 1 })

def vfsOpen (st : State σ ν) (path : Str) (flags : UInt32) : Option (ℤ × State σ ν) :=
  match findNode ops st.files path flags with
  | none => none
  | some (none, files) => some (-1, { st with files := files })
  | some (some node, files) => openNode ops st files node flags

/-- The node's own close, if there is one. -/
def callClose (files : σ) (node : Option ν) : Option σ :=
  match node.bind (ops.closeOp files) with
  | none => some files
  | some files => files

def vfsClose (st : State σ ν) (fd : ℤ) : Option (ℤ × State σ ν) :=
  match liveFd st fd with
  | none => some (-1, st)
  | some (i, file) =>
    let file : Descriptor ν := { file with refcount := file.refcount - 1 }
    if file.refcount = 0 then
      match callClose ops st.files file.node with
      | none => none
      | some files =>
        some (0, ({ st with files := files } : State σ ν).setFd i { file with node := none })
    else some (0, st.setFd i file)

/-- The descriptor after a transfer that returned `n`. -/
def advance (file : Descriptor ν) (n : ℤ) : Descriptor ν :=
  if n > 0 then { file with offset := file.offset + UInt64.ofInt n } else file

def vfsRead (st : State σ ν) (fd : ℤ) (count : UInt64) :
    Option (ℤ × List UInt8 × State σ ν) :=
  match liveFd st fd with
  | none => some (-1, [], st)
  | some (i, file) =>
    match file.node.bind (ops.readOp st.files) with
    | none => some (-1, [], st)
    | some read =>
      match read file.offset count.toUInt32 with
      | none => none
      | some (n, bytes, files) =>
        some (n, bytes, ({ st with files := files } : State σ ν).setFd i (advance file n))

def vfsWrite (st : State σ ν) (fd : ℤ) (buffer : ℕ → UInt8) (count : UInt64) :
    Option (ℤ × State σ ν) :=
  match liveFd st fd with
  | none => some (-1, st)
  | some (i, file) =>
    match file.node.bind (ops.writeOp st.files) with
    | none => some (-1, st)
    | some write =>
      match write file.offset count.toUInt32 buffer with
      | none => none
      | some (n, files) =>
        some (n, ({ st with files := files } : State σ ν).setFd i (advance file n))

/-- `offset` is the bit pattern of the signed argument. -/
def vfsSeek (st : State σ ν) (fd : ℤ) (offset : UInt64) (whence : ℤ) : ℤ × State σ ν :=
  match liveFd st fd with
  | none => (-1, st)
  | some (i, file) =>
    if whence = 0 then (0, st.setFd i { file with offset := offset })
    else if whence = 1 then (0, st.setFd i { file with offset := file.offset + offset })
    else if whence = 2 then
      match file.node with
      | none => (0, st)
      | some n =>
        (0, st.setFd i { file with offset := (ops.size st.files n).toUInt64 + offset })
    else (-1, st)

def vfsReaddir (st : State σ ν) (fd : ℤ) : Option (ℤ × Option Dirent × State σ ν) :=
  match liveFd st fd with
  | none => some (-1, none, st)
  | some (i, file) =>
    match file.node.bind (ops.readdirOp st.files) with
    | none => some (-1, none, st)
    | some readdir =>
      match readdir file.offset.toUInt32 with
      | none => none
      | some (none, files) => some (-1, none, { st with files := files })
      | some (some entry, files) =>
        some (0, some entry, ({ st with files := files } : State σ ν).setFd i
          { file with offset := file.offset + 1 })

inductive FdCall
  | open (path : Str) (flags : UInt32)
  | close (fd : ℤ)
  | read (fd : ℤ) (count : UInt64)
  | write (fd : ℤ) (buffer : ℕ → UInt8) (count : UInt64)
  | seek (fd : ℤ) (offset : UInt64) (whence : ℤ)
  | readdir (fd : ℤ)

/-- The descriptor that a call names. -/
def FdCall.fd? : FdCall → Option ℤ
  | .open _ _ => none
  | .close fd => some fd
  | .read fd _ => some fd
  | .write fd _ _ => some fd
  | .seek fd _ _ => some fd
  | .readdir fd => some fd

/-- One call, with its return value; `none` if it crashes. -/
def fdCall (st : State σ ν) : FdCall → Option (ℤ × State σ ν)
  | .open path flags => vfsOpen ops st path flags
  | .close fd => vfsClose ops st fd
  | .read fd count => (vfsRead ops st fd count).map fun out => (out.1, out.2.2)
  | .write fd buffer count => vfsWrite ops st fd buffer count
  | .seek fd offset whence => some (vfsSeek ops st fd offset whence)
  | .readdir fd => (vfsReaddir ops st fd).map fun out => (out.1, out.2.2)

def fdStep (st : State σ ν) (c : FdCall) (st' : State σ ν) : Prop :=
  ∃ r, fdCall ops st c = some (r, st')

/-! ## What is to hold -/

/-- The live entry of a table for a descriptor. -/
def lookup (table : ℕ → Descriptor ν) (fd : ℤ) : Option (Descriptor ν) :=
  if fd < 0 ∨ fd ≥ maxFds ∨ (table fd.toNat).refcount = 0 then none else some (table fd.toNat)

def liveCount (table : ℕ → Descriptor ν) : ℕ :=
  ((Finset.range maxFds).filter fun i => (table i).refcount ≠ 0).card

/-- Descriptors do not disturb each other, from the state `st` on. -/
structure Isolated (st : State σ ν) : Prop where
  opened : ∀ path flags r st', vfsOpen ops st path flags = some (r, st') → r ≠ -1 →
    3 ≤ r ∧ r ≤ 255 ∧ lookup st.gFds r = none ∧
      ∃ node files offset, findNode ops st.files path flags = some (some node, files) ∧
        lookup st'.gFds r = some ⟨some node, offset, flags, 1⟩
  closed : ∀ fd st', vfsClose ops st fd = some (0, st') → lookup st'.gFds fd = none
  kept : ∀ calls st' fd file, Run (fdStep ops) st calls st' → .close fd ∉ calls →
    lookup st.gFds fd = some file →
    ∃ offset, lookup st'.gFds fd = some { file with offset := offset } ∧
      ((∀ c ∈ calls, c.fd? ≠ some fd) → offset = file.offset)
  refused : ∀ c fd, c.fd? = some fd → lookup st.gFds fd = none → fdCall ops st c = some (-1, st)
  full : ∀ path flags node files, findNode ops st.files path flags = some (some node, files) →
    (liveCount st.gFds = 253 →
      vfsOpen ops st path flags = some (-1, { st with files := files })) ∧
    ∀ st', vfsOpen ops st path flags = some (-1, st') → liveCount st.gFds = 253 ∨
      ∃ open_ r files', ops.openOp files node = some open_ ∧ open_ flags = some (r, files') ∧ r ≠ 0

/-! ## The table -/

variable {ops} {st st' : State σ ν} {fd : ℤ}

theorem lookup_eq_some {table : ℕ → Descriptor ν} {file : Descriptor ν} :
    lookup table fd = some file ↔
      0 ≤ fd ∧ fd < maxFds ∧ (table fd.toNat).refcount ≠ 0 ∧ file = table fd.toNat := by
  unfold lookup
  by_cases hdead : fd < 0 ∨ fd ≥ maxFds ∨ (table fd.toNat).refcount = 0
  · rw [if_pos hdead]
    apply iff_of_false (by simp)
    rintro ⟨hfd, hlt, hne, -⟩
    rcases hdead with h | h | h
    · omega
    · omega
    · exact hne h
  · rw [if_neg hdead, Option.some.injEq]
    push Not at hdead
    exact ⟨fun heq => ⟨hdead.1, hdead.2.1, hdead.2.2, heq.symm⟩, fun h => h.2.2.2.symm⟩

theorem liveFd_eq_lookup (st : State σ ν) (fd : ℤ) :
    liveFd st fd = (lookup st.gFds fd).map fun file => (fd.toNat, file) := by
  unfold liveFd lookup
  split <;> rfl

/-- The entry of one descriptor is replaced. -/
theorem lookup_update (table : ℕ → Descriptor ν) {i : ℕ} (hi : i < maxFds) (file : Descriptor ν)
    (fd : ℤ) :
    lookup (Function.update table i file) fd =
      if fd = i then (if file.refcount = 0 then none else some file) else lookup table fd := by
  by_cases heq : fd = i
  · subst heq
    rw [if_pos rfl]
    unfold lookup
    rw [Int.toNat_natCast, Function.update_self]
    refine if_congr ?_ rfl rfl
    constructor
    · rintro (h | h | h)
      · omega
      · omega
      · exact h
    · exact fun h => Or.inr (Or.inr h)
  · rw [if_neg heq]
    unfold lookup
    by_cases hneg : fd < 0
    · rw [if_pos (Or.inl hneg), if_pos (Or.inl hneg)]
    · have hne : fd.toNat ≠ i := by omega
      rw [Function.update_of_ne hne]

theorem freeFd_spec {i : ℕ} (h : freeFd st = some i) :
    3 ≤ i ∧ i < maxFds ∧ (st.gFds i).refcount = 0 := by
  obtain ⟨j, hj, hlt, hsome, -⟩ := firstSome_eq_some.mp h
  split at hsome
  · rename_i hzero
    obtain rfl := Option.some.inj hsome
    refine ⟨hj, ?_, hzero⟩
    unfold maxFds at hlt ⊢
    omega
  · cases hsome

/-- What a call does to the table. -/
inductive TableStep (table : ℕ → Descriptor ν) : FdCall → ℤ → (ℕ → Descriptor ν) → Prop
  | notOpened {path : Str} {flags : UInt32} : TableStep table (.open path flags) (-1) table
  | opened {path : Str} {flags : UInt32} {i : ℕ} {node : ν} {offset : UInt64} : 3 ≤ i → i < maxFds →
      (table i).refcount = 0 → TableStep table (.open path flags) i
        (Function.update table i ⟨some node, offset, flags, 1⟩)
  | dead {c : FdCall} {fd : ℤ} : c.fd? = some fd → lookup table fd = none →
      TableStep table c (-1) table
  | closed {fd : ℤ} {file : Descriptor ν} {node : Option ν} : lookup table fd = some file →
      TableStep table (.close fd) 0
        (Function.update table fd.toNat ⟨node, file.offset, file.flags, file.refcount - 1⟩)
  | moved {c : FdCall} {fd : ℤ} {file : Descriptor ν} {offset : UInt64} {r : ℤ} : c.fd? = some fd →
      c ≠ .close fd → lookup table fd = some file →
      TableStep table c r (Function.update table fd.toNat { file with offset := offset })

theorem TableStep.unmoved {table : ℕ → Descriptor ν} {c : FdCall} {file : Descriptor ν} {r : ℤ}
    (hc : c.fd? = some fd) (hclose : c ≠ .close fd) (hfile : lookup table fd = some file) :
    TableStep table c r table := by
  have hmoved : TableStep table c r
      (Function.update table fd.toNat { file with offset := file.offset }) :=
    .moved hc hclose hfile
  obtain ⟨-, -, -, heq⟩ := lookup_eq_some.mp hfile
  have hsame : Function.update table fd.toNat { file with offset := file.offset } = table := by
    rw [heq]
    exact Function.update_eq_self _ _
  rwa [hsame] at hmoved

theorem advance_eq (file : Descriptor ν) (n : ℤ) :
    ∃ offset, advance file n = { file with offset := offset } := by
  unfold advance
  split
  · exact ⟨_, rfl⟩
  · exact ⟨file.offset, rfl⟩

theorem vfsOpen_table {path : Str} {flags : UInt32} {r : ℤ}
    (h : vfsOpen ops st path flags = some (r, st')) :
    TableStep st.gFds (.open path flags) r st'.gFds := by
  unfold vfsOpen at h
  split at h
  · cases h
  · cases h
    exact .notOpened
  · unfold openNode at h
    split at h
    · cases h
      exact .notOpened
    · rename_i i hfree
      obtain ⟨hi, hlt, hzero⟩ := freeFd_spec hfree
      split at h
      · cases h
      · split at h
        · cases h
          exact .notOpened
        · cases h
          exact .opened hi hlt hzero

theorem vfsClose_table {r : ℤ} (h : vfsClose ops st fd = some (r, st')) :
    TableStep st.gFds (.close fd) r st'.gFds := by
  unfold vfsClose at h
  rw [liveFd_eq_lookup] at h
  cases hfile : lookup st.gFds fd with
  | none =>
    simp only [hfile, Option.map_none] at h
    cases h
    exact .dead rfl hfile
  | some file =>
    simp only [hfile, Option.map_some] at h
    split at h
    · split at h
      · cases h
      · cases h
        exact .closed hfile
    · cases h
      exact .closed hfile

theorem vfsRead_table {count : UInt64} {r : ℤ} {bytes : List UInt8}
    (h : vfsRead ops st fd count = some (r, bytes, st')) :
    TableStep st.gFds (.read fd count) r st'.gFds := by
  unfold vfsRead at h
  rw [liveFd_eq_lookup] at h
  cases hfile : lookup st.gFds fd with
  | none =>
    simp only [hfile, Option.map_none] at h
    cases h
    exact .dead rfl hfile
  | some file =>
    simp only [hfile, Option.map_some] at h
    split at h
    · cases h
      exact .unmoved rfl FdCall.noConfusion hfile
    · split at h
      · cases h
      · rename_i n bytes files _
        obtain ⟨offset, hoffset⟩ := advance_eq file n
        rw [hoffset] at h
        cases h
        exact .moved rfl FdCall.noConfusion hfile

theorem vfsWrite_table {buffer : ℕ → UInt8} {count : UInt64} {r : ℤ}
    (h : vfsWrite ops st fd buffer count = some (r, st')) :
    TableStep st.gFds (.write fd buffer count) r st'.gFds := by
  unfold vfsWrite at h
  rw [liveFd_eq_lookup] at h
  cases hfile : lookup st.gFds fd with
  | none =>
    simp only [hfile, Option.map_none] at h
    cases h
    exact .dead rfl hfile
  | some file =>
    simp only [hfile, Option.map_some] at h
    split at h
    · cases h
      exact .unmoved rfl FdCall.noConfusion hfile
    · split at h
      · cases h
      · rename_i n files _
        obtain ⟨offset, hoffset⟩ := advance_eq file n
        rw [hoffset] at h
        cases h
        exact .moved rfl FdCall.noConfusion hfile

theorem vfsSeek_table (st : State σ ν) (fd : ℤ) (offset : UInt64) (whence : ℤ) :
    TableStep st.gFds (.seek fd offset whence) (vfsSeek ops st fd offset whence).1
      (vfsSeek ops st fd offset whence).2.gFds := by
  unfold vfsSeek
  rw [liveFd_eq_lookup]
  cases hfile : lookup st.gFds fd with
  | none => exact .dead rfl hfile
  | some file =>
    simp only [Option.map_some]
    split
    · exact .moved rfl FdCall.noConfusion hfile
    · split
      · exact .moved rfl FdCall.noConfusion hfile
      · split
        · split
          · exact .unmoved rfl FdCall.noConfusion hfile
          · exact .moved rfl FdCall.noConfusion hfile
        · exact .unmoved rfl FdCall.noConfusion hfile

theorem vfsReaddir_table {r : ℤ} {entry : Option Dirent}
    (h : vfsReaddir ops st fd = some (r, entry, st')) :
    TableStep st.gFds (.readdir fd) r st'.gFds := by
  unfold vfsReaddir at h
  rw [liveFd_eq_lookup] at h
  cases hfile : lookup st.gFds fd with
  | none =>
    simp only [hfile, Option.map_none] at h
    cases h
    exact .dead rfl hfile
  | some file =>
    simp only [hfile, Option.map_some] at h
    split at h
    · cases h
      exact .unmoved rfl FdCall.noConfusion hfile
    · split at h
      · cases h
      · cases h
        exact .unmoved rfl FdCall.noConfusion hfile
      · cases h
        exact .moved rfl FdCall.noConfusion hfile

theorem fdStep_table {c : FdCall} (h : fdStep ops st c st') :
    ∃ r, TableStep st.gFds c r st'.gFds := by
  obtain ⟨r, h⟩ := h
  refine ⟨r, ?_⟩
  cases c with
  | «open» path flags => exact vfsOpen_table h
  | close fd => exact vfsClose_table h
  | read fd count =>
    obtain ⟨⟨n, bytes, t⟩, hread, heq⟩ := Option.map_eq_some_iff.mp h
    cases heq
    exact vfsRead_table hread
  | write fd buffer count => exact vfsWrite_table h
  | seek fd offset whence =>
    have htable : TableStep st.gFds (.seek fd offset whence) (vfsSeek ops st fd offset whence).1
        (vfsSeek ops st fd offset whence).2.gFds := vfsSeek_table st fd offset whence
    rw [Option.some.inj h] at htable
    exact htable
  | readdir fd =>
    obtain ⟨⟨n, entry, t⟩, hreaddir, heq⟩ := Option.map_eq_some_iff.mp h
    cases heq
    exact vfsReaddir_table hreaddir

/-! ## The invariant -/

/-- Descriptors are live once, and 0, 1 and 2 never are. -/
def TableInv (table : ℕ → Descriptor ν) : Prop :=
  ∀ i, (table i).refcount ≠ 0 → (table i).refcount = 1 ∧ 3 ≤ i ∧ i < maxFds

theorem TableInv.update {table : ℕ → Descriptor ν} (h : TableInv table) {i : ℕ}
    {file : Descriptor ν} (hfile : file.refcount ≠ 0 → file.refcount = 1 ∧ 3 ≤ i ∧ i < maxFds) :
    TableInv (Function.update table i file) := by
  intro j hj
  by_cases hji : j = i
  · subst hji
    rw [Function.update_self] at hj ⊢
    exact hfile hj
  · rw [Function.update_of_ne hji] at hj ⊢
    exact h j hj

theorem TableInv.step {table table' : ℕ → Descriptor ν} (h : TableInv table) {c : FdCall} {r : ℤ}
    (hstep : TableStep table c r table') : TableInv table' := by
  cases hstep with
  | notOpened => exact h
  | opened hi hlt _ => exact h.update fun _ => ⟨rfl, hi, hlt⟩
  | dead => exact h
  | closed hfile =>
    obtain ⟨-, -, hne, rfl⟩ := lookup_eq_some.mp hfile
    refine h.update fun hone => absurd ?_ hone
    rw [(h _ hne).1]
    rfl
  | moved _ _ hfile =>
    obtain ⟨-, -, hne, rfl⟩ := lookup_eq_some.mp hfile
    exact h.update fun _ => h _ hne

/-- A descriptor keeps what its open gave it through a call that does not close it. -/
theorem TableStep.kept {table table' : ℕ → Descriptor ν} {c : FdCall} {r : ℤ}
    (hstep : TableStep table c r table') (hclose : c ≠ .close fd) {file : Descriptor ν}
    (hfile : lookup table fd = some file) :
    ∃ offset, lookup table' fd = some { file with offset := offset } ∧
      (c.fd? ≠ some fd → offset = file.offset) := by
  have hsame : ∃ offset, lookup table fd = some { file with offset := offset } ∧
      (c.fd? ≠ some fd → offset = file.offset) := ⟨file.offset, hfile, fun _ => rfl⟩
  obtain ⟨hfd, hlt, hne, -⟩ := lookup_eq_some.mp hfile
  -- the entry of another descriptor is replaced
  have hother (i : ℕ) (hi : i < maxFds) (hne : fd ≠ i) (file' : Descriptor ν) :
      lookup (Function.update table i file') fd = lookup table fd := by
    rw [lookup_update table hi, if_neg hne]
  cases hstep with
  | notOpened => exact hsame
  | dead => exact hsame
  | @opened path flags i node offset hi hilt hzero =>
    have hnefd : fd ≠ i := by
      rintro rfl
      rw [Int.toNat_natCast] at hne
      exact hne hzero
    rw [hother i hilt hnefd]
    exact hsame
  | @closed fd' file' node hfile' =>
    obtain ⟨hfd', hlt', -, -⟩ := lookup_eq_some.mp hfile'
    have hnefd : fd ≠ fd' := by
      rintro rfl
      exact hclose rfl
    rw [hother fd'.toNat (by omega) (by omega)]
    exact hsame
  | @moved _ fd' file' offset _ hc _ hfile' =>
    obtain ⟨hfd', hlt', hne', -⟩ := lookup_eq_some.mp hfile'
    by_cases hnefd : fd = fd'
    · subst hnefd
      obtain rfl := Option.some.inj (hfile.symm.trans hfile')
      refine ⟨offset, ?_, fun hother => absurd hc hother⟩
      have hcount : file.refcount ≠ 0 := by
        obtain ⟨-, -, hcount, heq⟩ := lookup_eq_some.mp hfile
        rwa [heq]
      rw [lookup_update table (by omega), if_pos (Int.toNat_of_nonneg hfd).symm, if_neg hcount]
    · rw [hother fd'.toNat (by omega) (by omega)]
      exact hsame

theorem kept_run {calls : List FdCall} (hrun : Run (fdStep ops) st calls st')
    (hclose : .close fd ∉ calls) {file : Descriptor ν} (hfile : lookup st.gFds fd = some file) :
    ∃ offset, lookup st'.gFds fd = some { file with offset := offset } ∧
      ((∀ c ∈ calls, c.fd? ≠ some fd) → offset = file.offset) := by
  induction hrun generalizing file with
  | nil st => exact ⟨file.offset, hfile, fun _ => rfl⟩
  | @cons st t u c calls hstep _ ih =>
    obtain ⟨hc, hcalls⟩ := not_or.mp (List.mem_cons.not.mp hclose)
    obtain ⟨r, htable⟩ := fdStep_table hstep
    obtain ⟨offset, ht, hoffset⟩ := htable.kept (Ne.symm hc) hfile
    obtain ⟨offset', hu, hoffset'⟩ := ih hcalls ht
    refine ⟨offset', hu, fun hnames => ?_⟩
    obtain ⟨hname, hnames⟩ := List.forall_mem_cons.mp hnames
    exact (hoffset' hnames).trans (hoffset hname)

theorem fdCall_dead {c : FdCall} (hc : c.fd? = some fd) (hdead : lookup st.gFds fd = none) :
    fdCall ops st c = some (-1, st) := by
  have hlive : liveFd st fd = none := by rw [liveFd_eq_lookup, hdead, Option.map_none]
  cases c with
  | «open» path flags => cases hc
  | close fd =>
    obtain rfl := Option.some.inj hc
    rw [fdCall, vfsClose, hlive]
  | read fd count =>
    obtain rfl := Option.some.inj hc
    rw [fdCall, vfsRead, hlive]
    rfl
  | write fd buffer count =>
    obtain rfl := Option.some.inj hc
    rw [fdCall, vfsWrite, hlive]
  | seek fd offset whence =>
    obtain rfl := Option.some.inj hc
    rw [fdCall, vfsSeek, hlive]
  | readdir fd =>
    obtain rfl := Option.some.inj hc
    rw [fdCall, vfsReaddir, hlive]
    rfl

/-- No descriptor is free exactly when 253 are live. -/
theorem freeFd_eq_none (h : TableInv st.gFds) : freeFd st = none ↔ liveCount st.gFds = 253 := by
  have hsub : (Finset.range maxFds).filter (fun i => (st.gFds i).refcount ≠ 0) ⊆
      Finset.Ico 3 maxFds := by
    intro i hi
    obtain ⟨-, hne⟩ := Finset.mem_filter.mp hi
    obtain ⟨-, hi, hlt⟩ := h i hne
    exact Finset.mem_Ico.mpr ⟨hi, hlt⟩
  have hcard : (Finset.Ico 3 maxFds).card = 253 := by rw [Nat.card_Ico, maxFds]
  have hnone : freeFd st = none ↔ ∀ i ∈ Finset.Ico 3 maxFds, (st.gFds i).refcount ≠ 0 := by
    unfold freeFd
    rw [firstSome_eq_none]
    apply forall_congr'
    intro i
    rw [Finset.mem_Ico, maxFds]
    constructor
    · intro hall hi
      have hskip := hall hi.1 (by omega)
      intro hzero
      rw [if_pos hzero] at hskip
      cases hskip
    · intro hall hi hlt
      exact if_neg (hall ⟨hi, by omega⟩)
  rw [hnone, liveCount]
  constructor
  · intro hall
    rw [← hcard]
    congr 1
    apply Finset.Subset.antisymm hsub
    intro i hi
    exact Finset.mem_filter.mpr ⟨Finset.mem_range.mpr (Finset.mem_Ico.mp hi).2, hall i hi⟩
  · intro hcount i hi
    have heq := Finset.eq_of_subset_of_card_le hsub (by rw [hcard, hcount])
    rw [← heq] at hi
    exact (Finset.mem_filter.mp hi).2

/-! ## Every run -/

theorem TableStep.closed_dead {table table' : ℕ → Descriptor ν} (h : TableInv table) {r : ℤ}
    (hstep : TableStep table (.close fd) r table') (hr : r = 0) : lookup table' fd = none := by
  cases hstep with
  | dead => cases hr
  | closed hfile =>
    obtain ⟨hfd, hlt, hne, rfl⟩ := lookup_eq_some.mp hfile
    rw [lookup_update table (by omega), if_pos (Int.toNat_of_nonneg hfd).symm, if_pos]
    rw [(h _ hne).1]
    rfl
  | moved hc hclose => exact absurd (congrArg FdCall.close (Option.some.inj hc)) hclose

theorem vfsOpen_opened {path : Str} {flags : UInt32} {r : ℤ}
    (h : vfsOpen ops st path flags = some (r, st')) (hr : r ≠ -1) :
    3 ≤ r ∧ r ≤ 255 ∧ lookup st.gFds r = none ∧
      ∃ node files offset, findNode ops st.files path flags = some (some node, files) ∧
        lookup st'.gFds r = some ⟨some node, offset, flags, 1⟩ := by
  unfold vfsOpen at h
  split at h
  · cases h
  · cases h
    exact absurd rfl hr
  · rename_i node files hnode
    unfold openNode at h
    split at h
    · cases h
      exact absurd rfl hr
    · rename_i i hfree
      obtain ⟨hi, hlt, hzero⟩ := freeFd_spec hfree
      split at h
      · cases h
      · split at h
        · cases h
          exact absurd rfl hr
        · cases h
          have hdead : lookup st.gFds i = none := by
            unfold lookup
            exact if_pos (Or.inr (Or.inr hzero))
          rename_i files' _ _
          have hlook := lookup_update st.gFds hlt ⟨some node,
            if flags &&& oAppend ≠ 0 then (ops.size files' node).toUInt64 else 0, flags, 1⟩ i
          unfold maxFds at hlt
          exact ⟨by omega, by omega, hdead, node, files, _, hnode, hlook.trans (if_pos rfl)⟩

/-- `vfs_open` looks for a descriptor before it calls the node's own open. -/
theorem vfsOpen_full {path : Str} {flags : UInt32} {node : ν} {files : σ}
    (hnode : findNode ops st.files path flags = some (some node, files)) :
    (freeFd st = none → vfsOpen ops st path flags = some (-1, { st with files := files })) ∧
      ∀ st', vfsOpen ops st path flags = some (-1, st') → freeFd st = none ∨
        ∃ open_ r files', ops.openOp files node = some open_ ∧ open_ flags = some (r, files') ∧
          r ≠ 0 := by
  unfold vfsOpen openNode callOpen
  simp only [hnode]
  cases hfree : freeFd st with
  | none => exact ⟨fun _ => rfl, fun _ _ => Or.inl rfl⟩
  | some i =>
    refine ⟨?_, fun st' h => Or.inr ?_⟩
    · intro hnone
      cases hnone
    cases hopen : ops.openOp files node with
    | none => simp [hopen] at h
    | some open_ =>
      cases hcall : open_ flags with
      | none => simp [hopen, hcall] at h
      | some out =>
        obtain ⟨r, files'⟩ := out
        refine ⟨open_, r, files', rfl, hcall, ?_⟩
        rintro rfl
        simp [hopen, hcall] at h

theorem TableInv.isolated (h : TableInv st.gFds) : Isolated ops st where
  opened path flags r st' hopen hr := vfsOpen_opened hopen hr
  closed fd st' hclose := (vfsClose_table hclose).closed_dead h rfl
  kept calls st' fd file hrun hclose hfile := kept_run hrun hclose hfile
  refused c fd hc hdead := fdCall_dead hc hdead
  full path flags node files hnode := by
    rw [← freeFd_eq_none h]
    exact vfsOpen_full hnode

theorem tableInv_start (files : σ) : TableInv (start files : State σ ν).gFds :=
  fun _ hne => absurd rfl hne

theorem TableInv.run {calls : List FdCall} (h : TableInv st.gFds)
    (hrun : Run (fdStep ops) st calls st') : TableInv st'.gFds :=
  hrun.invariant (P := fun st => TableInv st.gFds)
    (fun _ _ _ h hstep => by
      obtain ⟨r, htable⟩ := fdStep_table hstep
      exact h.step htable) h

end Rhoudveine.Fs.Descriptors
