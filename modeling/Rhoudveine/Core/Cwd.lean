import Rhoudveine.Fs.Paths
import Rhoudveine.Lib.Bytes
import Rhoudveine.Lib.Run

/-!
# The working directory

`sys_chdir` and `sys_getcwd` of `syscall.c`.  The static buffer `cwd` is in the memory of
the kernel, with whatever the linker put behind it, and the buffer of a caller in the
memory of its program.
-/

namespace Rhoudveine.Core
open Memory Fs

/-! ## The code -/

/-- The string at `s`, read by at most `rounds` rounds of a loop; `none` if there is no end. -/
def readStr (m : Memory) (s : UInt64) : (rounds : ℕ) → Option Str
  | 0 => none
  | rounds + 1 => if m s = 0 then some [] else (readStr m (s + 1) rounds).map (m s :: ·)

/-- `str_len`, of a string that is there. -/
def strLen (s : Str) : UInt64 := UInt64.ofNat s.length

def strCpy (m : Memory) (dst : UInt64) : (src : Str) → Memory
  | [] => store8 m dst 0
  | c :: src => strCpy (store8 m dst c) (dst + 1) src

variable (cwd : UInt64)

/-- `sys_getcwd`: what it returns and the memory of the program.  It does not return where no
byte is 0. -/
def sysGetcwd (kernel user : Memory) (buf size : UInt64) : Option (Int64 × Memory) :=
  if buf = 0 ∨ size = 0 then some (-1, user)
  else
    match readStr kernel cwd (2 ^ 64) with
    | none => none
    | some s =>
      if strLen s ≥ size then some (-1, user)
      else some ((strLen s).toInt64, strCpy user buf s)

/-- `sys_chdir`: what it returns and the memory of the kernel. -/
def sysChdir (vfs : Vfs) (kernel : Memory) (path : Option Str) : Option (Int64 × Memory) :=
  match path with
  | none => some (-1, kernel)
  | some path =>
    match vfsResolvePath vfs path with
    | .crash => none
    | .null => some (-1, kernel)
    | .node n =>
      if ¬ (vfs.ramfsNodePool n).isDir then some (-1, kernel)
      -- nothing has looked at the length of the path
      else some (0, strCpy kernel cwd path)

/-! ## Runs -/

/-- A string in the memory of a program, which has room for its terminator. -/
structure UserStr where
  bytes : Str
  not_zero : 0 ∉ bytes
  length_lt : bytes.length < 2 ^ 64

/-- A call, with the file systems as they are at the time. -/
inductive CwdCall
  | getcwd (buf size : UInt64)
  | chdir (vfs : Vfs) (path : Option UserStr)

/-- The last argument `sys_chdir` took is kept beside the memories. -/
structure CwdState where
  kernel : Memory
  user : Memory
  last : Str

/-- The `cwd` the kernel is loaded with. -/
def CwdState.start (kernel user : Memory) : CwdState where
  kernel := store8 (memset kernel cwd 0 256) cwd slash
  user := user
  last := [slash]

def CwdState.step (s : CwdState) : CwdCall → Option CwdState
  | .getcwd buf size =>
    (sysGetcwd cwd s.kernel s.user buf size).map fun result => { s with user := result.2 }
  | .chdir vfs path =>
    (sysChdir cwd vfs s.kernel (path.map UserStr.bytes)).map fun result : Int64 × Memory =>
      { s with
        kernel := result.2
        last := if result.1 = 0 then (path.map UserStr.bytes).getD s.last else s.last }

/-- The 256 bytes of `cwd` contain a whole string. -/
def Terminated (kernel : Memory) : Prop := ∃ s : Str, CStr kernel cwd s ∧ s.length < 256

/-- What a program sees of `sys_getcwd`: `last` with its terminator in `buf`, or nothing. -/
def Reports (last : Str) (user : Memory) (buf size : UInt64) (result : Int64 × Memory) : Prop :=
  if buf ≠ 0 ∧ last.length < size.toNat then
    result.1.toInt = last.length ∧ CStr result.2 buf last ∧
      ∀ x, ¬ InRange buf (last.length + 1) x → result.2 x = user x
  else result = (-1, user)

def CwdState.Truthful (s : CwdState) : CwdCall → Prop
  | .getcwd buf size =>
    ∃ result, sysGetcwd cwd s.kernel s.user buf size = some result ∧
      Reports s.last s.user buf size result
  | .chdir vfs path =>
    ∀ result, sysChdir cwd vfs s.kernel (path.map UserStr.bytes) = some result →
      Terminated cwd result.2

/-- A path that leads to a directory is shorter than `cwd`. -/
def CwdState.Short (_ : CwdState) : CwdCall → Prop
  | .getcwd _ _ => True
  | .chdir vfs path =>
    ∀ p ∈ path, ∀ n, vfsResolvePath vfs p.bytes = .node n → (vfs.ramfsNodePool n).isDir →
      p.bytes.length < 256

/-! ## Strings in memory -/

theorem strCpy_of_not_inRange (m : Memory) {a x : UInt64} {s : Str} (hs : s.length < 2 ^ 64)
    (hx : ¬ InRange a (s.length + 1) x) : strCpy m a s x = m x := by
  induction s generalizing m a with
  | nil =>
    rw [List.length_nil, inRange_succ, not_or] at hx
    exact Function.update_of_ne hx.1 _ _
  | cons c s ih =>
    rw [List.length_cons, inRange_succ, not_or] at hx
    have hlen : s.length + 1 < 2 ^ 64 := hs
    rw [strCpy, ih _ (by omega) fun hin => hx.2 ⟨hin, hx.1⟩]
    exact Function.update_of_ne hx.1 _ _

theorem holds_strCpy (m : Memory) (a : UInt64) {s : Str} (hs : s.length < 2 ^ 64) :
    Holds (strCpy m a s) a (s ++ [0]) := by
  induction s generalizing m a with
  | nil => exact ⟨Function.update_self _ _ _, trivial⟩
  | cons c s ih =>
    have hlen : s.length + 1 < 2 ^ 64 := hs
    refine ⟨?_, ih _ _ (by omega)⟩
    rw [strCpy, strCpy_of_not_inRange _ (by omega) (not_inRange_self hlen)]
    exact Function.update_self _ _ _

theorem cStr_strCpy (m : Memory) (a : UInt64) {s : Str} (hs : s.length < 2 ^ 64) (hzero : 0 ∉ s) :
    CStr (strCpy m a s) a s := ⟨hzero, holds_strCpy m a hs⟩

theorem readStr_of_cStr {m : Memory} {a : UInt64} {s : Str} {rounds : ℕ} (h : CStr m a s)
    (hs : s.length < rounds) : readStr m a rounds = some s := by
  induction rounds generalizing a s with
  | zero => omega
  | succ rounds ih =>
    cases s with
    | nil =>
      have hend : m a = 0 := h.2.1
      rw [readStr, if_pos hend]
    | cons c s =>
      have hfirst : m a = c := h.2.1
      have hc : c ≠ 0 := fun heq => h.1 (heq ▸ List.mem_cons_self)
      have hrest : CStr m (a + 1) s := ⟨fun hmem => h.1 (List.mem_cons_of_mem _ hmem), h.2.2⟩
      rw [readStr, hfirst, if_neg hc, ih hrest (Nat.lt_of_succ_lt_succ hs)]
      rfl

/-! ## One call -/

structure CwdState.Inv (s : CwdState) : Prop where
  cStr : CStr s.kernel cwd s.last
  length_lt : s.last.length < 256

variable {cwd : UInt64} {s t : CwdState} {call : CwdCall}

theorem toNat_strLen {s : Str} (hs : s.length < 256) : (strLen s).toNat = s.length := by
  unfold strLen
  rw [UInt64.toNat_ofNat']
  omega

theorem toInt_strLen {s : Str} (hs : s.length < 256) : (strLen s).toInt64.toInt = s.length :=
  Int64.toInt_ofNat_of_lt (by omega)

theorem CwdState.Inv.getcwd (h : s.Inv cwd) (buf size : UInt64) :
    ∃ result, sysGetcwd cwd s.kernel s.user buf size = some result ∧
      Reports s.last s.user buf size result := by
  have hlt := h.length_lt
  have hread : readStr s.kernel cwd (2 ^ 64) = some s.last := readStr_of_cStr h.cStr (by omega)
  unfold sysGetcwd Reports
  by_cases harg : buf = 0 ∨ size = 0
  · refine ⟨_, if_pos harg, ?_⟩
    rw [if_neg]
    rintro ⟨hbuf, hroom⟩
    rcases harg with rfl | rfl
    · exact hbuf rfl
    · exact absurd hroom (Nat.not_lt_zero _)
  · have hbuf := (not_or.mp harg).1
    rw [if_neg harg, hread]
    dsimp only
    by_cases hroom : s.last.length < size.toNat
    · have hfits : ¬ strLen s.last ≥ size := by
        rw [ge_iff_le, UInt64.le_iff_toNat_le, toNat_strLen hlt]
        omega
      refine ⟨_, if_neg hfits, ?_⟩
      rw [if_pos ⟨hbuf, hroom⟩]
      exact ⟨toInt_strLen hlt, cStr_strCpy _ _ (by omega) h.cStr.1,
        fun x hx => strCpy_of_not_inRange _ (by omega) hx⟩
    · have hfull : strLen s.last ≥ size := by
        rw [ge_iff_le, UInt64.le_iff_toNat_le, toNat_strLen hlt]
        omega
      refine ⟨_, if_pos hfull, ?_⟩
      rw [if_neg fun hcond : buf ≠ 0 ∧ s.last.length < size.toNat => hroom hcond.2]

/-- What `sys_chdir` can do: refuse and leave `cwd` alone, or copy a path to a directory. -/
theorem sysChdir_cases {vfs : Vfs} {kernel : Memory} {path : Option Str}
    {result : Int64 × Memory} (h : sysChdir cwd vfs kernel path = some result) :
    result = (-1, kernel) ∨
      ∃ p n, path = some p ∧ vfsResolvePath vfs p = .node n ∧ (vfs.ramfsNodePool n).isDir ∧
        result = (0, strCpy kernel cwd p) := by
  unfold sysChdir at h
  cases path with
  | none => exact Or.inl (Option.some.inj h).symm
  | some p =>
    dsimp only at h
    cases hres : vfsResolvePath vfs p with
    | crash =>
      rw [hres] at h
      cases h
    | null =>
      rw [hres] at h
      exact Or.inl (Option.some.inj h).symm
    | node n =>
      rw [hres] at h
      dsimp only at h
      by_cases hdir : (vfs.ramfsNodePool n).isDir
      · rw [if_neg (not_not.mpr hdir)] at h
        exact Or.inr ⟨p, n, rfl, hres, hdir, (Option.some.inj h).symm⟩
      · rw [if_pos hdir] at h
        exact Or.inl (Option.some.inj h).symm

theorem sysChdir_directory {vfs : Vfs} {p : Str} {n : ℕ} (kernel : Memory)
    (hres : vfsResolvePath vfs p = .node n) (hdir : (vfs.ramfsNodePool n).isDir) :
    sysChdir cwd vfs kernel (some p) = some (0, strCpy kernel cwd p) := by
  unfold sysChdir
  dsimp only
  rw [hres]
  dsimp only
  rw [if_neg (not_not.mpr hdir)]

/-- A path that is too long leaves no terminator inside `cwd`. -/
theorem terminated_strCpy_iff (kernel : Memory) (p : UserStr) :
    Terminated cwd (strCpy kernel cwd p.bytes) ↔ p.bytes.length < 256 := by
  have hcStr := cStr_strCpy kernel cwd p.length_lt p.not_zero
  constructor
  · rintro ⟨s, hs, hlt⟩
    rwa [hs.unique hcStr] at hlt
  · exact fun hlt => ⟨p.bytes, hcStr, hlt⟩

theorem CwdState.Inv.truthful_iff (h : s.Inv cwd) : s.Truthful cwd call ↔ s.Short call := by
  cases call with
  | getcwd buf size => exact iff_of_true (h.getcwd buf size) trivial
  | chdir vfs path =>
    constructor
    · intro htruthful p hp n hres hdir
      obtain rfl := Option.mem_def.mp hp
      exact (terminated_strCpy_iff _ p).mp
        (htruthful _ (sysChdir_directory s.kernel hres hdir))
    · intro hshort result hresult
      rcases sysChdir_cases hresult with rfl | ⟨p, n, hpath, hres, hdir, rfl⟩
      · exact ⟨s.last, h.cStr, h.length_lt⟩
      · obtain ⟨p, hp, rfl⟩ := Option.map_eq_some_iff.mp hpath
        exact (terminated_strCpy_iff _ p).mpr (hshort p hp n hres hdir)

theorem CwdState.Inv.step (h : s.Inv cwd) (hshort : s.Short call)
    (hstep : s.step cwd call = some t) : t.Inv cwd := by
  cases call with
  | getcwd buf size =>
    obtain ⟨result, -, rfl⟩ := Option.map_eq_some_iff.mp hstep
    exact ⟨h.cStr, h.length_lt⟩
  | chdir vfs path =>
    obtain ⟨result, hresult, rfl⟩ := Option.map_eq_some_iff.mp hstep
    rcases sysChdir_cases hresult with rfl | ⟨p, n, hpath, hres, hdir, rfl⟩
    · exact ⟨h.cStr, h.length_lt⟩
    · obtain ⟨p, hp, rfl⟩ := Option.map_eq_some_iff.mp hpath
      obtain rfl := hp
      exact ⟨cStr_strCpy _ _ p.length_lt p.not_zero, hshort p rfl n hres hdir⟩

/-! ## Runs -/

theorem CwdState.Inv.start (cwd : UInt64) (kernel user : Memory) :
    (CwdState.start cwd kernel user).Inv cwd := by
  have hzero : 0 ∉ [slash] := by decide
  refine ⟨⟨hzero, Function.update_self _ _ _, ?_, trivial⟩, Nat.one_lt_ofNat⟩
  have hne : cwd + 1 ≠ cwd := by
    intro heq
    exact @not_inRange_self cwd 1 (by decide) (inRange_succ.mpr (Or.inl heq.symm))
  have hin : InRange cwd 256 (cwd + 1) :=
    inRange_succ.mpr (Or.inr ⟨inRange_succ.mpr (Or.inl rfl), hne⟩)
  have hset : memset kernel cwd 0 256 (cwd + 1) = 0 := memset_of_inRange kernel 0 hin
  exact (Function.update_of_ne hne _ _).trans hset

/-- `cwd` keeps a whole string and is reported as it is for as long as no path of 256 bytes or
more leads to a directory. -/
theorem getcwd_truthful_iff (cwd : UInt64) (kernel user : Memory) (calls : List CwdCall) :
    Always (CwdState.step cwd) (CwdState.Truthful cwd) (CwdState.start cwd kernel user) calls ↔
      Always (CwdState.step cwd) CwdState.Short (CwdState.start cwd kernel user) calls :=
  @always_iff _ _ (CwdState.step cwd) (CwdState.Inv cwd) (fun _ _ => True) (CwdState.Truthful cwd)
    CwdState.Short (fun _ _ h _ => h.truthful_iff) (fun _ _ _ h _ hshort hstep => h.step hshort hstep)
    _ _ (CwdState.Inv.start cwd kernel user) (Always.of_forall (fun _ _ => trivial) _ _)

/-- A path of nothing but slashes. -/
def slashes : UserStr where
  bytes := List.replicate 256 slash
  not_zero hmem := absurd (List.eq_of_mem_replicate hmem) (by decide)
  length_lt := by
    rw [List.length_replicate]
    norm_num

/-- The root directory by a path of 256 slashes, with only the root file system mounted. -/
theorem slashes_not_terminated :
    Run (vfsStep fun _ => 0) (vfsInit fun _ _ => 0) [.mount (str "/") (str "ramfs")] rootOnly ∧
      ¬ ∀ (cwd : UInt64) (kernel user : Memory) (calls : List CwdCall),
        Always (CwdState.step cwd) (CwdState.Truthful cwd) (CwdState.start cwd kernel user)
          calls := by
  refine ⟨rootOnly_run, fun hall => ?_⟩
  have hshort := (CwdState.Inv.start 0x1000 (fun _ => 0) (fun _ => 0)).truthful_iff.mp
    (hall 0x1000 (fun _ => 0) (fun _ => 0) [.chdir rootOnly (some slashes)]).1
  have hres : vfsResolvePath rootOnly slashes.bytes = .node 0 := by decide +kernel
  have hdir : (rootOnly.ramfsNodePool 0).isDir := by decide +kernel
  have hlen : slashes.bytes.length = 256 := List.length_replicate
  exact absurd (hshort slashes rfl 0 hres hdir) (by rw [hlen]; decide)

end Rhoudveine.Core
