import Rhoudveine.Fs.Contents

/-!
# The paged files refine the byte arrays

The relation between the tables of the code and the abstract machine, that every call
within the limits keeps it, and from it the replies of whole runs.
-/

namespace Rhoudveine.Fs
open Search

variable {answers : ℕ → UInt64}

/-! ## The relation -/

/-- What holds of an open descriptor: it was opened once, on a file, and its offset is
within the limit. -/
structure Usable (s : Vfs) (file : FileDescriptor) : Prop where
  refcount : file.refcount = 1
  offset_le : file.offset.toNat ≤ maxFilePages * 4096
  node : ∃ n, file.node = some n ∧ IsFile s n

structure Agrees (answers : ℕ → UInt64) (w : Watched) : Prop where
  blocks : BlocksInv answers w.vfs
  file_lt : ∀ n, IsFile w.vfs n → n < maxRamfsNodes
  owner : ∀ k < w.vfs.fileDataCount, ∃ n, IsFile w.vfs n ∧ FileBlock w.vfs n k
  fds : w.files.fds = descriptors w.vfs
  usable : ∀ fd, (w.vfs.gFds fd).refcount ≠ 0 → Usable w.vfs (w.vfs.gFds fd)
  size : ∀ n, IsFile w.vfs n → (w.vfs.ramfsNodePool n).size.toNat = (w.files.contents n).size
  bytes : ∀ n p b, (w.files.contents n).byte p = some b → Holds w.vfs n p b

theorem Usable.view {s : Vfs} {file : FileDescriptor} (h : Usable s file) {n : ℕ}
    (hn : file.node = some n) : file.view = some (n, file.offset.toNat) := by
  have hne : ¬ file.refcount = 0 := by
    rw [h.refcount]
    decide
  rw [FileDescriptor.view, if_neg hne, hn]
  rfl

/-- Moving a descriptor on within the limit. -/
theorem Usable.advance {s : Vfs} {file : FileDescriptor} (h : Usable s file) {k : ℕ}
    (hk : file.offset.toNat + k ≤ maxFilePages * 4096) :
    Usable s (advance file k) ∧ (advance file k).node = file.node ∧
      (advance file k).offset.toNat = file.offset.toNat + k := by
  obtain ⟨hone, hle, hnode⟩ := h
  by_cases hzero : k = 0
  · subst hzero
    have hstay : Fs.advance file ((0 : ℕ) : ℤ) = file := if_neg (by decide)
    rw [hstay]
    exact ⟨⟨hone, hle, hnode⟩, rfl, rfl⟩
  · have hgt : (k : ℤ) > 0 := by omega
    have hoffset : (file.offset + UInt64.ofInt k).toNat = file.offset.toNat + k := by
      unfold maxFilePages at hk
      have hofInt : (UInt64.ofInt (k : ℤ)).toNat = k := by
        rw [UInt64.ofInt, UInt64.toNat_ofNat']
        omega
      rw [UInt64.toNat_add, hofInt]
      omega
    rw [Fs.advance, if_pos hgt]
    refine ⟨⟨hone, ?_, hnode⟩, rfl, hoffset⟩
    dsimp only
    rw [hoffset]
    exact hk

theorem Usable.wrote {s s' : Vfs} {file : FileDescriptor} (h : Usable s file) {n offset size : ℕ}
    {data : ℕ → UInt8} (hw : Wrote answers s n offset size data s') : Usable s' file := by
  obtain ⟨hone, hle, m, hm, hfile⟩ := h
  exact ⟨hone, hle, m, hm, (hw.isFile_iff m).mpr hfile⟩

namespace Agrees

variable {w : Watched}

/-- A descriptor is closed on both sides, or open on both with the same node and offset. -/
theorem fd_cases (h : Agrees answers w) (fd : ℤ) :
    (liveFd w.vfs fd = none ∧ w.files.fds fd = none) ∨
      ∃ file n, liveFd w.vfs fd = some (fd.toNat, file) ∧ 0 ≤ fd ∧ fd < maxFds ∧
        Usable w.vfs file ∧ file.node = some n ∧ IsFile w.vfs n ∧
        w.files.fds fd = some (n, file.offset.toNat) := by
  rw [h.fds, descriptors]
  cases hlive : liveFd w.vfs fd with
  | none => exact Or.inl ⟨rfl, rfl⟩
  | some p =>
    obtain ⟨i, file⟩ := p
    obtain ⟨h0, hlt, hne, rfl, rfl⟩ := liveFd_eq_some.mp hlive
    have huse := h.usable fd.toNat hne
    obtain ⟨n, hn, hfile⟩ := huse.node
    refine Or.inr ⟨_, n, rfl, h0, hlt, huse, hn, hfile, ?_⟩
    rw [Option.bind_some, hn]
    rfl

/-- Setting a descriptor on both sides. -/
theorem setFd (h : Agrees answers w) {fd : ℤ} (h0 : 0 ≤ fd) (hlt : fd < maxFds)
    {file : FileDescriptor} (hfile : file.refcount ≠ 0 → Usable w.vfs file) :
    Agrees answers ⟨w.vfs.setFd fd.toNat file,
      { w.files with fds := Function.update w.files.fds fd file.view }⟩ where
  blocks := { h.blocks with }
  file_lt := h.file_lt
  owner := h.owner
  fds := by
    dsimp only
    rw [h.fds, descriptors_setFd h0 hlt]
  usable fd' hne := by
    by_cases heq : fd' = fd.toNat
    · subst heq
      simp only [Vfs.setFd, Function.update_self] at hne ⊢
      exact { hfile hne with }
    · simp only [Vfs.setFd, Function.update_of_ne heq] at hne ⊢
      exact { h.usable fd' hne with }
  size := h.size
  bytes := h.bytes

/-- A file without a block finds one: there are as many blocks as nodes. -/
theorem room (h : Agrees answers w) {n : ℕ} (hn : IsFile w.vfs n)
    (hnull : (w.vfs.ramfsNodePool n).fsData = .null) : w.vfs.fileDataCount < maxRamfsFiles := by
  by_contra hfull
  have hfull : maxRamfsFiles ≤ w.vfs.fileDataCount := Nat.le_of_not_lt hfull
  choose own hfile hblock using fun k : Fin maxRamfsNodes => h.owner k (k.isLt.trans_le hfull)
  -- the owners of the first 64 blocks are all the nodes there are
  have hinj : Function.Injective fun k => (⟨own k, h.file_lt _ (hfile k)⟩ : Fin maxRamfsNodes) := by
    intro k k' heq
    have heq : own k = own k' := congrArg Fin.val heq
    have hk := (hblock k).2
    rw [heq, (hblock k').2] at hk
    exact Fin.ext (FsData.file.inj hk).symm
  obtain ⟨k, hk⟩ := Finite.surjective_of_injective hinj ⟨n, h.file_lt n hn⟩
  have hk : own k = n := congrArg Fin.val hk
  have hdata := (hblock k).2
  rw [hk, hnull] at hdata
  cases hdata

theorem size_le (h : Agrees answers w) {n : ℕ} (hn : IsFile w.vfs n) :
    (w.vfs.ramfsNodePool n).size.toNat ≤ maxFilePages * 4096 := by
  cases hdata : (w.vfs.ramfsNodePool n).fsData with
  | dir d => exact absurd hdata (h.blocks.file_data n d hn.1)
  | null =>
    rw [h.blocks.no_block n hn.1 hdata]
    exact Nat.zero_le _
  | file k =>
    have hb : FileBlock w.vfs n k := ⟨hn.1, hdata⟩
    exact (h.blocks.size_le n k hb).trans (Nat.mul_le_mul_right _ (h.blocks.pages_le n k hb))

/-- A write on both sides. -/
theorem wrote (h : Agrees answers w) {n offset size : ℕ} (hn : IsFile w.vfs n)
    {data : ℕ → UInt8} {s' : Vfs} (hw : Wrote answers w.vfs n offset size data s') :
    Agrees answers ⟨s', { w.files with
      contents := Function.update w.files.contents n
        ((w.files.contents n).write offset size data) }⟩ := by
  have hfile := hw.isFile_iff
  refine
    { blocks := hw.blocks
      file_lt := fun m hm => h.file_lt m ((hfile m).mp hm)
      owner := fun k hk => ?_
      fds := h.fds.trans (descriptors_congr hw.fds).symm
      usable := fun fd hne => ?_
      size := fun m hm => ?_
      bytes := fun m p b hb => ?_ }
  · rcases hw.owner k hk with ⟨hlt, hkeep⟩ | hnew
    · obtain ⟨m, hm, hblock⟩ := h.owner k hlt
      exact ⟨m, (hfile m).mpr hm, hkeep m hblock⟩
    · exact ⟨n, (hfile n).mpr hn, hnew⟩
  · dsimp only at hne ⊢
    rw [hw.fds] at hne ⊢
    exact (h.usable fd hne).wrote hw
  · dsimp only at hm ⊢
    by_cases hmn : m = n
    · subst hmn
      rw [Function.update_self, hw.size_self, h.size m hn]
      rfl
    · rw [Function.update_of_ne hmn, hw.size_other m hmn]
      exact h.size m ((hfile m).mp hm)
  · by_cases hmn : m = n
    · subst hmn
      simp only [Function.update_self, Contents.write] at hb
      by_cases hin : offset ≤ p ∧ p < offset + size
      · rw [if_pos hin] at hb
        have hwritten := hw.written (p - offset) (by omega)
        rwa [Nat.add_sub_cancel' hin.1, Option.some.inj hb] at hwritten
      · rw [if_neg hin] at hb
        exact hw.kept m p b (h.bytes m p b hb) fun hc => hin hc.2
    · simp only [Function.update_of_ne hmn] at hb
      exact hw.kept m p b (h.bytes m p b hb) fun hc => hmn hc.1

/-! ## Calls -/

/-- What is to show of every call. -/
def CallOk (answers : ℕ → UInt64) (w : Watched) (c : FileCall) : Prop :=
  ∃ reply s', fileCall answers w.vfs c = some (reply, s') ∧ Expected w.files reply c ∧
    Agrees answers ⟨s', w.files.next w.vfs reply.value c⟩

theorem open_ok (h : Agrees answers w) {path : Str} {flags : UInt32} {n : ℕ}
    (hres : vfsResolvePath w.vfs path = .node n) (hn : IsFile w.vfs n) :
    CallOk answers w (.open path flags) := by
  have hopen : vfsOpen w.vfs path flags = some (openNode w.vfs n flags) := by
    simp [vfsOpen, hres]
  cases hfree : freeFd w.vfs with
  | none =>
    refine ⟨⟨-1, []⟩, w.vfs, ?_, Or.inl rfl, ?_⟩
    · simp [fileCall, hopen, openNode, hfree]
    · simp only [Files.next, hres]
      exact h
  | some fd =>
    obtain ⟨hlt, hzero⟩ := freeFd_eq_some hfree
    have hclosed : w.files.fds (fd : ℤ) = none := by
      rcases h.fd_cases fd with ⟨-, hnone⟩ | ⟨file, m, hlive, -⟩
      · exact hnone
      · exact absurd hzero (liveFd_eq_some.mp hlive).2.2.1
    refine ⟨⟨(fd : ℤ), []⟩, (openNode w.vfs n flags).2, ?_, Or.inr hclosed, ?_⟩
    · simp [fileCall, hopen, openNode, hfree]
    simp only [openNode, hfree]
    have hoffset : (if flags &&& oAppend ≠ 0 then (w.vfs.ramfsNodePool n).size.toUInt64
        else 0).toNat = if flags &&& oAppend ≠ 0 then (w.files.contents n).size else 0 := by
      split
      · rw [UInt32.toNat_toUInt64, h.size n hn]
      · rfl
    have husable : Usable w.vfs ⟨some n, if flags &&& oAppend ≠ 0 then
        (w.vfs.ramfsNodePool n).size.toUInt64 else 0, flags, 1⟩ := by
      refine ⟨rfl, ?_, n, rfl, hn⟩
      dsimp only
      rw [hoffset]
      split
      · rw [← h.size n hn]
        exact h.size_le hn
      · exact Nat.zero_le _
    have hset := h.setFd (Int.natCast_nonneg fd) (Int.ofNat_lt.mpr hlt) fun _ => husable
    · have hneg : ¬ (fd : ℤ) < 0 := by omega
      have hone : ¬ (1 : ℤ) = 0 := by decide
      simp only [FileDescriptor.view, if_neg hone, Option.map_some, hoffset, Int.toNat_natCast]
        at hset
      simp only [Files.next, hres, if_neg hneg]
      exact hset

theorem write_ok (h : Agrees answers w) (hfresh : FreshAnswers answers) {fd : ℤ}
    {data : ℕ → UInt8} {count : UInt64} (hlimit : WithinLimits w (.write fd data count))
    (hnever : NeverFails answers w (.write fd data count)) :
    CallOk answers w (.write fd data count) := by
  rcases h.fd_cases fd with ⟨hlive, hnone⟩ | ⟨file, n, hlive, h0, hlt, huse, hnode, hn, hfd⟩
  · refine ⟨⟨-1, []⟩, w.vfs, by simp [fileCall, vfsWrite, hlive], ?_, ?_⟩
    · simp [Expected, hnone]
    · simp only [Files.next, hnone]
      exact h
  · obtain ⟨hpos, hfit⟩ := hlimit n _ hfd
    have hcount : count.toUInt32.toNat = count.toNat := by
      rw [UInt64.toNat_toUInt32]
      unfold maxFilePages at hfit
      omega
    have hsize : count.toUInt32 ≠ 0 := by
      intro hzero
      rw [hzero, UInt32.toNat_zero] at hcount
      omega
    have hcall (r : ℤ) (s' : Vfs)
        (hw : ramfsWrite answers w.vfs (some n) file.offset count.toUInt32 data = some (r, s')) :
        fileCall answers w.vfs (.write fd data count) =
          some (⟨r, []⟩, s'.setFd fd.toNat (advance file r)) := by
      simp [fileCall, vfsWrite, hlive, hnode, hn.2, hw]
    obtain ⟨s', hwrite, hw⟩ := ramfsWrite_inside h.blocks hfresh hn.1 (h.room hn) data hsize
      (by rwa [hcount]) fun r s' hwrite j => hnever _ _ (hcall r s' hwrite) j
    rw [hcount] at hw hwrite
    refine ⟨_, _, hcall _ _ hwrite, by simp [Expected, hfd], ?_⟩
    have hwrote := h.wrote hn hw
    obtain ⟨hmoved, hmnode, hmoffset⟩ := (huse.wrote hw).advance hfit
    have hset := hwrote.setFd h0 hlt fun _ => hmoved
    rw [hmoved.view (hmnode.trans hnode), hmoffset] at hset
    simp only [Files.next, hfd]
    exact hset

theorem read_ok (h : Agrees answers w) {fd : ℤ} {count : UInt64}
    (hlimit : WithinLimits w (.read fd count)) : CallOk answers w (.read fd count) := by
  rcases h.fd_cases fd with ⟨hlive, hnone⟩ | ⟨file, n, hlive, h0, hlt, huse, hnode, hn, hfd⟩
  · refine ⟨⟨-1, []⟩, w.vfs, by simp [fileCall, vfsRead, hlive], ?_, ?_⟩
    · simp [Expected, hnone]
    · simp only [Files.next, hnone]
      exact h
  · have hcount : count.toUInt32.toNat = count.toNat := by
      rw [UInt64.toNat_toUInt32]
      exact Nat.mod_eq_of_lt (lt_trans hlimit (by decide))
    obtain ⟨buffer, hread, hlen, hbytes⟩ :=
      ramfsRead_holds h.blocks hn.1 file.offset count.toUInt32
    rw [hcount, h.size n hn] at hlen
    refine ⟨⟨(buffer.length : ℤ), buffer⟩, w.vfs.setFd fd.toNat (advance file buffer.length),
      by simp [fileCall, vfsRead, hlive, hnode, hn.2, hread], ?_, ?_⟩
    · simp only [Expected, hfd]
      refine ⟨by rw [hlen], trivial, fun i hi b hb => ?_⟩
      exact hbytes i hi b (h.bytes n _ b hb)
    · have hle := h.size_le hn
      rw [h.size n hn] at hle
      obtain ⟨hmoved, hmnode, hmoffset⟩ := huse.advance (k := buffer.length) (by
        have := huse.offset_le
        omega)
      have hset := h.setFd h0 hlt fun _ => hmoved
      rw [hmoved.view (hmnode.trans hnode), hmoffset, hlen] at hset
      simp only [Files.next, hfd]
      rw [hlen]
      exact hset

theorem seek_ok (h : Agrees answers w) {fd : ℤ} {offset : UInt64}
    (hlimit : WithinLimits w (.seek fd offset)) : CallOk answers w (.seek fd offset) := by
  rcases h.fd_cases fd with ⟨hlive, hnone⟩ | ⟨file, n, hlive, h0, hlt, huse, hnode, hn, hfd⟩
  · refine ⟨⟨-1, []⟩, w.vfs, by simp [fileCall, vfsSeek, hlive], ?_, ?_⟩
    · simp [Expected, hnone]
    · simp only [Files.next, hnone]
      exact h
  · refine ⟨⟨0, []⟩, w.vfs.setFd fd.toNat { file with offset := offset },
      by simp [fileCall, vfsSeek, hlive], by simp [Expected, hfd], ?_⟩
    have hmoved : Usable w.vfs { file with offset := offset } :=
      ⟨huse.refcount, Nat.le_of_lt hlimit, huse.node⟩
    have hset := h.setFd h0 hlt fun _ => hmoved
    rw [hmoved.view hnode] at hset
    simp only [Files.next, hfd]
    exact hset

theorem close_ok (h : Agrees answers w) (fd : ℤ) : CallOk answers w (.close fd) := by
  rcases h.fd_cases fd with ⟨hlive, hnone⟩ | ⟨file, n, hlive, h0, hlt, huse, hnode, hn, hfd⟩
  · refine ⟨⟨-1, []⟩, w.vfs, by simp [fileCall, vfsClose, hlive], ?_, ?_⟩
    · simp [Expected, hnone]
    · have hsame : Function.update w.files.fds fd none = w.files.fds := by
        rw [← hnone, Function.update_eq_self]
      simp only [Files.next, hsame]
      exact h
  · have hzero : file.refcount - 1 = 0 := by
      rw [huse.refcount]
      rfl
    refine ⟨⟨0, []⟩, w.vfs.setFd fd.toNat { file with refcount := 0, node := none },
      by simp [fileCall, vfsClose, hlive, hzero], by simp [Expected, hfd], ?_⟩
    have hclosed : ({ file with refcount := 0, node := none } : FileDescriptor).refcount ≠ 0 →
        Usable w.vfs { file with refcount := 0, node := none } := fun hne => absurd rfl hne
    have hset := h.setFd h0 hlt hclosed
    exact hset

theorem call_ok (h : Agrees answers w) (hfresh : FreshAnswers answers) {c : FileCall}
    (hlimit : WithinLimits w c) (hnever : NeverFails answers w c) : CallOk answers w c := by
  cases c with
  | «open» path flags =>
    obtain ⟨n, hres, hn⟩ := hlimit
    exact h.open_ok hres hn
  | write fd data count => exact h.write_ok hfresh hlimit hnever
  | read fd count => exact h.read_ok hlimit
  | seek fd offset => exact h.seek_ok hlimit
  | close fd => exact h.close_ok fd

end Agrees

/-! ## Runs -/

theorem agrees_start {s : Vfs} (h : Untouched s) : Agrees answers ⟨s, .start⟩ where
  blocks := h.blocksInv answers
  file_lt := h.file_lt
  owner k hk := by
    rw [h.fileDataCount] at hk
    exact absurd hk (Nat.not_lt_zero k)
  fds := by
    funext fd
    have hdead : liveFd s fd = none := by
      by_contra hne
      obtain ⟨p, hp⟩ := Option.ne_none_iff_exists'.mp hne
      exact (liveFd_eq_some.mp hp).2.2.1 (h.closed _)
    rw [descriptors, hdead]
    rfl
  usable fd hne := absurd (h.closed fd) hne
  size n hn := by
    rw [h.size n hn.1]
    rfl
  bytes n p b hb := by cases hb

/-- After any calls that set up a file tree: while calls stay within the limits and no
allocation fails, every reply and every descriptor offset is that of the abstract files. -/
theorem files_conform (hfresh : FreshAnswers answers) {frames : UInt64 → ℕ → UInt8}
    {ops : List MountOp} {t : Traced} (hsetup : SetupRun frames ops t) (calls : List FileCall)
    (hcalls : Always (watchStep answers) (fun w c => WithinLimits w c ∧ NeverFails answers w c)
      ⟨t.vfs, .start⟩ calls) :
    Always (watchStep answers) (Conforms answers) ⟨t.vfs, .start⟩ calls := by
  have hstep (w : Watched) (c : FileCall) (h : Agrees answers w)
      (hD : WithinLimits w c ∧ NeverFails answers w c) : Conforms answers w c := by
    obtain ⟨reply, s', hcall, hexpected, hagrees⟩ := h.call_ok hfresh hD.1 hD.2
    exact ⟨reply, s', hcall, hexpected, hagrees.fds.symm⟩
  have hkeep (w : Watched) (c : FileCall) (w' : Watched) (h : Agrees answers w)
      (hD : WithinLimits w c ∧ NeverFails answers w c)
      (hw : watchStep answers w c = some w') : Agrees answers w' := by
    obtain ⟨reply, s', hcall, -, hagrees⟩ := h.call_ok hfresh hD.1 hD.2
    rw [watchStep, hcall, Option.map_some] at hw
    rwa [← Option.some.inj hw]
  exact (always_iff (fun w c h hD => iff_of_true (hstep w c h hD) hD)
    (fun w c w' h hD _ => hkeep w c w' h hD) (agrees_start (Untouched.run hsetup)) hcalls).mpr hcalls

/-! ## Writing five bytes to `/f` and reading them back -/

def fiveBytes : List FileCall :=
  [.open (str "/f") 0, .write 3 (fun i => UInt8.ofNat i) 5, .seek 3 0, .read 3 5]

def five₀ : Watched := ⟨file₂.vfs, .start⟩
def five₁ : Watched := (watchStep answers₁ five₀ (.open (str "/f") 0)).get (by decide +kernel)
def five₂ : Watched :=
  (watchStep answers₁ five₁ (.write 3 (fun i => UInt8.ofNat i) 5)).get (by decide +kernel)
def five₃ : Watched := (watchStep answers₁ five₂ (.seek 3 0)).get (by decide +kernel)

theorem five_step₁ : watchStep answers₁ five₀ (.open (str "/f") 0) = some five₁ :=
  (Option.some_get _).symm

theorem five_step₂ :
    watchStep answers₁ five₁ (.write 3 (fun i => UInt8.ofNat i) 5) = some five₂ :=
  (Option.some_get _).symm

theorem five_step₃ : watchStep answers₁ five₂ (.seek 3 0) = some five₃ := (Option.some_get _).symm

theorem neverFails_of_allocs {w : Watched} {c : FileCall} {n : ℕ} (hn : n ≤ 1)
    (h : (fileCall answers₁ w.vfs c).map (fun out => out.2.allocs) = some n) :
    NeverFails answers₁ w c := by
  intro reply s' hcall j _ hj
  rw [hcall, Option.map_some] at h
  rw [Option.some.inj h] at hj
  obtain rfl : j = 0 := by omega
  decide

theorem fiveBytes_within :
    Always (watchStep answers₁) (fun w c => WithinLimits w c ∧ NeverFails answers₁ w c) five₀
      fiveBytes := by
  have hfile : IsFile five₀.vfs 1 := ⟨by decide +kernel, by decide +kernel⟩
  have hfd : five₁.files.fds 3 = some (1, 0) := by decide +kernel
  have hopen : NeverFails answers₁ five₀ (.open (str "/f") 0) :=
    neverFails_of_allocs (n := 0) (by decide) (by decide +kernel)
  have hwrite : NeverFails answers₁ five₁ (.write 3 (fun i => UInt8.ofNat i) 5) :=
    neverFails_of_allocs (n := 1) le_rfl (by decide +kernel)
  have hseek : NeverFails answers₁ five₂ (.seek 3 0) :=
    neverFails_of_allocs (n := 1) le_rfl (by decide +kernel)
  have hread : NeverFails answers₁ five₃ (.read 3 5) :=
    neverFails_of_allocs (n := 1) le_rfl (by decide +kernel)
  have hfive : WithinLimits five₁ (.write 3 (fun i => UInt8.ofNat i) 5) := by
    intro n offset h
    rw [hfd] at h
    obtain ⟨-, rfl⟩ := Prod.mk.inj (Option.some.inj h)
    decide
  have hlow : (0 : UInt64).toNat < maxFilePages * 4096 := by decide
  have hfew : (5 : UInt64).toNat < 2 ^ 31 := by decide
  exact .cons five_step₁ ⟨⟨1, by decide +kernel, hfile⟩, hopen⟩
    (.cons five_step₂ ⟨hfive, hwrite⟩
      (.cons five_step₃ ⟨hlow, hseek⟩ ⟨⟨hfew, hread⟩, fun _ _ => trivial⟩))

theorem files_conform_fiveBytes :
    Always (watchStep answers₁) (Conforms answers₁) five₀ fiveBytes :=
  files_conform freshAnswers₁ file_setup fiveBytes fiveBytes_within

end Rhoudveine.Fs
