import Rhoudveine.Fs.Bytes
import Rhoudveine.Fs.Setup

/-!
# Files as byte arrays

The descriptor calls on ramfs files, next to an abstract machine of byte arrays and
descriptors.  While offsets stay within the 128 pages and no allocation fails, the
paged files behave like the arrays, whichever files and descriptors a run uses.
-/

namespace Rhoudveine.Fs
open Search

/-! ## The abstract files -/

/-- A file as its users see it: the largest end of any write, and at each position the
byte last written there. -/
structure Contents where
  size : ℕ
  byte : ℕ → Option UInt8

def Contents.empty : Contents := ⟨0, fun _ => none⟩

def Contents.write (c : Contents) (offset count : ℕ) (data : ℕ → UInt8) : Contents where
  size := max c.size (offset + count)
  byte p := if offset ≤ p ∧ p < offset + count then some (data (p - offset)) else c.byte p

/-- The contents of every node, and the node and offset of every open descriptor. -/
structure Files where
  contents : ℕ → Contents
  fds : ℤ → Option (ℕ × ℕ)

def Files.start : Files := ⟨fun _ => .empty, fun _ => none⟩

/-! ## Calls -/

inductive FileCall
  | open (path : Str) (flags : UInt32)
  | write (fd : ℤ) (data : ℕ → UInt8) (count : UInt64)
  | read (fd : ℤ) (count : UInt64)
  | seek (fd : ℤ) (offset : UInt64)
  | close (fd : ℤ)

/-- The return value of a call and the bytes it stores in the caller's buffer. -/
structure Reply where
  value : ℤ
  buffer : List UInt8

def fileCall (answers : ℕ → UInt64) (s : Vfs) : FileCall → Option (Reply × Vfs)
  | .open path flags => (vfsOpen s path flags).map fun out => (⟨out.1, []⟩, out.2)
  | .write fd data count => (vfsWrite answers s fd data count).map fun out => (⟨out.1, []⟩, out.2)
  | .read fd count => (vfsRead s fd count).map fun out => (⟨out.1, out.2.1⟩, out.2.2)
  | .seek fd offset => some (⟨(vfsSeek s fd offset 0).1, []⟩, (vfsSeek s fd offset 0).2)
  | .close fd => some (⟨(vfsClose s fd).1, []⟩, (vfsClose s fd).2)

/-- The abstract files after a call in the state `s` that returned `value`: which node a
path names, and which descriptor `vfs_open` picks, are left to the code. -/
def Files.next (f : Files) (s : Vfs) (value : ℤ) : FileCall → Files
  | .open path flags =>
    match vfsResolvePath s path with
    | .node n =>
      if value < 0 then f
      else
        let offset := if flags &&& oAppend ≠ 0 then (f.contents n).size else 0
        { f with fds := Function.update f.fds value (some (n, offset)) }
    | _ => f
  | .write fd data count =>
    match f.fds fd with
    | some (n, offset) =>
      { contents := Function.update f.contents n ((f.contents n).write offset count.toNat data)
        fds := Function.update f.fds fd (some (n, offset + count.toNat)) }
    | none => f
  | .read fd count =>
    match f.fds fd with
    | some (n, offset) =>
      let got := min count.toNat ((f.contents n).size - offset)
      { f with fds := Function.update f.fds fd (some (n, offset + got)) }
    | none => f
  | .seek fd offset =>
    match f.fds fd with
    | some (n, _) => { f with fds := Function.update f.fds fd (some (n, offset.toNat)) }
    | none => f
  | .close fd => { f with fds := Function.update f.fds fd none }

/-- What the reply to a call should be.  Closed descriptors get -1. -/
def Expected (f : Files) (reply : Reply) : FileCall → Prop
  | .open _ _ => reply.value = -1 ∨ f.fds reply.value = none
  | .write fd _ count =>
    match f.fds fd with
    | some _ => reply.value = count.toNat
    | none => reply.value = -1
  | .read fd count =>
    match f.fds fd with
    | some (n, offset) =>
      reply.value = (min count.toNat ((f.contents n).size - offset) : ℕ) ∧
        (reply.buffer.length : ℤ) = reply.value ∧
        ∀ i < reply.buffer.length, ∀ b, (f.contents n).byte (offset + i) = some b →
          reply.buffer[i]? = some b
    | none => reply.value = -1
  | .seek fd _ | .close fd =>
    match f.fds fd with
    | some _ => reply.value = 0
    | none => reply.value = -1

/-! ## Runs of both -/

structure Watched where
  vfs : Vfs
  files : Files

def watchStep (answers : ℕ → UInt64) (w : Watched) (c : FileCall) : Option Watched :=
  (fileCall answers w.vfs c).map fun out => ⟨out.2, w.files.next w.vfs out.1.value c⟩

/-- The open descriptors of the code, as the abstract machine has them. -/
def descriptors (s : Vfs) (fd : ℤ) : Option (ℕ × ℕ) :=
  (liveFd s fd).bind fun p => p.2.node.map fun n => (n, p.2.offset.toNat)

/-- A call gets the expected reply and leaves the descriptors of the abstract machine. -/
def Conforms (answers : ℕ → UInt64) (w : Watched) (c : FileCall) : Prop :=
  ∃ reply s', fileCall answers w.vfs c = some (reply, s') ∧ Expected w.files reply c ∧
    descriptors s' = (w.files.next w.vfs reply.value c).fds

/-- Opens of files that are there, non-empty writes that end within the 128 pages, seeks
below that limit, reads of less than 2^31 bytes, and any close. -/
def WithinLimits (w : Watched) : FileCall → Prop
  | .open path _ => ∃ n, vfsResolvePath w.vfs path = .node n ∧ IsFile w.vfs n
  | .write fd _ count => ∀ n offset, w.files.fds fd = some (n, offset) →
      1 ≤ count.toNat ∧ offset + count.toNat ≤ maxFilePages * 4096
  | .read _ count => count.toNat < 2 ^ 31
  | .seek _ offset => offset.toNat < maxFilePages * 4096
  | .close _ => True

/-- No call of `pfa_alloc_low` that this call makes fails. -/
def NeverFails (answers : ℕ → UInt64) (w : Watched) (c : FileCall) : Prop :=
  ∀ reply s', fileCall answers w.vfs c = some (reply, s') →
    ∀ j, w.vfs.allocs ≤ j → j < s'.allocs → answers j ≠ 0

/-! ## Descriptors -/

section descriptors

variable {s : Vfs}

theorem liveFd_eq_some {fd : ℤ} {i : ℕ} {file : FileDescriptor} :
    liveFd s fd = some (i, file) ↔ 0 ≤ fd ∧ fd < maxFds ∧ (s.gFds fd.toNat).refcount ≠ 0 ∧
      i = fd.toNat ∧ file = s.gFds fd.toNat := by
  unfold liveFd
  by_cases hdead : fd < 0 ∨ fd ≥ maxFds ∨ (s.gFds fd.toNat).refcount = 0
  · rw [if_pos hdead]
    constructor
    · intro h
      cases h
    · rintro ⟨h0, hlt, hne, -, -⟩
      rcases hdead with h | h | h
      · omega
      · omega
      · exact absurd h hne
  · rw [if_neg hdead]
    push Not at hdead
    constructor
    · intro h
      obtain ⟨rfl, rfl⟩ := Prod.mk.inj (Option.some.inj h)
      exact ⟨hdead.1, hdead.2.1, hdead.2.2, rfl, rfl⟩
    · rintro ⟨-, -, -, rfl, rfl⟩
      rfl

theorem liveFd_setFd {fd : ℤ} (h0 : 0 ≤ fd) (hlt : fd < maxFds) (file : FileDescriptor) (fd' : ℤ) :
    liveFd (s.setFd fd.toNat file) fd' =
      if fd' = fd then (if file.refcount = 0 then none else some (fd.toNat, file))
      else liveFd s fd' := by
  by_cases heq : fd' = fd
  · subst heq
    rw [if_pos rfl]
    unfold liveFd
    simp only [Vfs.setFd, Function.update_self]
    refine if_congr ?_ rfl rfl
    constructor
    · rintro (h | h | h)
      · omega
      · omega
      · exact h
    · exact fun h => Or.inr (Or.inr h)
  · rw [if_neg heq]
    unfold liveFd
    by_cases hneg : fd' < 0
    · rw [if_pos (Or.inl hneg), if_pos (Or.inl hneg)]
    · have hne : fd'.toNat ≠ fd.toNat := by omega
      simp only [Vfs.setFd, Function.update_of_ne hne]

/-- What the abstract machine has for a descriptor. -/
def FileDescriptor.view (file : FileDescriptor) : Option (ℕ × ℕ) :=
  if file.refcount = 0 then none else file.node.map fun n => (n, file.offset.toNat)

theorem descriptors_setFd {fd : ℤ} (h0 : 0 ≤ fd) (hlt : fd < maxFds) (file : FileDescriptor) :
    descriptors (s.setFd fd.toNat file) = Function.update (descriptors s) fd file.view := by
  funext fd'
  rw [descriptors, liveFd_setFd h0 hlt]
  by_cases heq : fd' = fd
  · subst heq
    rw [if_pos rfl, Function.update_self, FileDescriptor.view]
    split <;> rfl
  · rw [if_neg heq, Function.update_of_ne heq]
    rfl

theorem descriptors_congr {s' : Vfs} (h : s'.gFds = s.gFds) : descriptors s' = descriptors s := by
  funext fd
  unfold descriptors liveFd
  rw [h]

theorem freeFd_eq_some {fd : ℕ} (h : freeFd s = some fd) :
    fd < maxFds ∧ (s.gFds fd).refcount = 0 := by
  obtain ⟨i, -, hi, hsome, -⟩ := firstSome_eq_some.mp h
  have hfree : (s.gFds i).refcount = 0 ∧ i = fd := by
    by_cases hzero : (s.gFds i).refcount = 0
    · rw [if_pos hzero] at hsome
      exact ⟨hzero, Option.some.inj hsome⟩
    · rw [if_neg hzero] at hsome
      cases hsome
  obtain ⟨hzero, rfl⟩ := hfree
  exact ⟨by unfold maxFds at hi ⊢; omega, hzero⟩

end descriptors

end Rhoudveine.Fs
