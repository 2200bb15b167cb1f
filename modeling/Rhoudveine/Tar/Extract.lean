import Rhoudveine.Lib.Bytes
import Rhoudveine.Lib.Words

/-!
# Reading an archive

`tar_extract_all`.  The archive is a memory whose address 0 is `tar_data`.  The walk also
returns the log of what it read and of the calls it made.
-/

namespace Rhoudveine.Tar

/-! ## The fields of a header -/

/-- The loop of `octal_to_uint64`. -/
def octalToUint64 (m : Memory) (str : UInt64) (len : ℕ) (result : UInt64) : UInt64 :=
  match len with
  | 0 => result
  | n + 1 =>
    if 0x30 ≤ m str ∧ m str ≤ 0x37 then
      octalToUint64 m (str + 1) n (result <<< 3 ||| (m str - 0x30).toUInt64)
    else result

/-- `my_strncmp` against a literal of `n` bytes. -/
def myStrncmp (m : Memory) (s1 : UInt64) : List UInt8 → ℤ
  | [] => 0
  | c :: s2 =>
    if m s1 ≠ c then (m s1).toInt8.toInt - c.toInt8.toInt
    else if m s1 = 0 then 0
    else myStrncmp m (s1 + 1) s2

/-- The file size in the header at `hdr`. -/
def fileSize (tar : Memory) (hdr : UInt64) : UInt64 := octalToUint64 tar (hdr + 124) 11 0

def typeflag (tar : Memory) (hdr : UInt64) : UInt8 := tar (hdr + 156)

/-- `"ustar"`. -/
def ustar : List UInt8 := [0x75, 0x73, 0x74, 0x61, 0x72]

def allZero (tar : Memory) (hdr : UInt64) : Bool :=
  (List.range 512).all fun i => tar (hdr + UInt64.ofNat i) == 0

/-- The block at `hdr` ends the archive. -/
def endOfArchive (tar : Memory) (hdr : UInt64) : Bool :=
  tar hdr == 0 || (myStrncmp tar (hdr + 257) ustar != 0 && allZero tar hdr)

/-- `((file_size + 511) / 512) * 512`. -/
def paddedSize (fileSize : UInt64) : UInt64 := (fileSize + 511) / 512 * 512

/-! ## The walk -/

/-- The arguments of the callback: where the name starts, the data if it is not `NULL`, and
the size. -/
structure Call where
  filename : UInt64
  data : Option UInt64
  size : UInt64
  deriving DecidableEq

/-- `n` bytes read at `off`, or a call of the callback. -/
inductive Event
  | read (off : UInt64) (n : ℕ)
  | call (c : Call)
  deriving DecidableEq

/-- What the walk reads of the header at `hdr`. -/
def headerReads (tar : Memory) (hdr : UInt64) : List Event :=
  if tar hdr = 0 then [.read hdr 1]
  else
    [.read hdr 1, .read (hdr + 257) 5] ++
      (if myStrncmp tar (hdr + 257) ustar ≠ 0 then [.read hdr 512] else []) ++
      if endOfArchive tar hdr then [] else [.read (hdr + 124) 11, .read (hdr + 156) 1]

def isFile (tar : Memory) (hdr : UInt64) : Bool := typeflag tar hdr == 0x30 || typeflag tar hdr == 0

/-- The call for the header at `hdr`: files are passed with the data behind the header,
directories without data, and other members are skipped. -/
def headerCall (tar : Memory) (hdr : UInt64) : Option Call :=
  if isFile tar hdr then some ⟨hdr, some (hdr + 512), fileSize tar hdr⟩
  else if typeflag tar hdr = 0x35 then some ⟨hdr, none, 0⟩
  else none

section walk

variable {σ : Type*} (tar : Memory) (tarSize : UInt64) (callback : Option (Call → σ → ℤ × σ))

/-- The callback, if there is one to make the call. -/
def runCallback (call : Option Call) (s : σ) : ℤ × List Event × σ :=
  match callback, call with
  | some f, some c => ((f c s).1, [.call c], (f c s).2)
  | _, _ => (0, [], s)

/-- The loop of `tar_extract_all`, for as many members as there is fuel. -/
def tarLoop (fuel : ℕ) (offset : UInt64) (s : σ) : Option (ℤ × List Event × σ) :=
  match fuel with
  | 0 => none
  | fuel + 1 =>
    if offset + 512 ≤ tarSize then
      if endOfArchive tar offset then some (0, headerReads tar offset, s)
      else
        let called := runCallback callback (headerCall tar offset) s
        if called.1 ≠ 0 then some (called.1, headerReads tar offset ++ called.2.1, called.2.2)
        else
          (tarLoop fuel (offset + 512 + paddedSize (fileSize tar offset)) called.2.2).map
            fun rest => (rest.1, headerReads tar offset ++ called.2.1 ++ rest.2.1, rest.2.2)
    else some (0, [], s)

def tarExtractAll (fuel : ℕ) (s : σ) : Option (ℤ × List Event × σ) :=
  if tarSize < 512 then some (-1, [], s) else tarLoop tar tarSize callback fuel 0 s

end walk

/-! ## One member -/

/-- One more octal digit. -/
theorem toNat_octal_digit {result d : UInt64} (hresult : result.toNat < 2 ^ 61) (hd : d.toNat < 8) :
    (result <<< 3 ||| d).toNat = 8 * result.toNat + d.toNat := by
  have hshift : (result <<< 3).toNat = result.toNat <<< 3 := by
    rw [UInt64.toNat_shiftLeft, Nat.shiftLeft_eq]
    have h3 : (3 : UInt64).toNat % 64 = 3 := rfl
    rw [h3, Nat.shiftLeft_eq]
    omega
  rw [UInt64.toNat_or, hshift, ← Nat.shiftLeft_add_eq_or_of_lt (by omega), Nat.shiftLeft_eq]
  omega

theorem toNat_digit {c : UInt8} (h : 0x30 ≤ c ∧ c ≤ 0x37) :
    (c - 0x30).toUInt64.toNat = c.toNat - 0x30 ∧ (c - 0x30).toUInt64.toNat < 8 := by
  have hle := UInt8.le_iff_toNat_le.mp h.1
  have hge := UInt8.le_iff_toNat_le.mp h.2
  have h30 : (0x30 : UInt8).toNat = 0x30 := rfl
  have h37 : (0x37 : UInt8).toNat = 0x37 := rfl
  rw [UInt8.toNat_toUInt64, UInt8.toNat_sub_of_le _ _ h.1]
  omega

theorem octalToUint64_lt (m : Memory) (str : UInt64) (len : ℕ) (result : UInt64) (k : ℕ)
    (h : result.toNat < 8 ^ k) (hlen : k + len ≤ 20) :
    (octalToUint64 m str len result).toNat < 8 ^ (k + len) := by
  induction len generalizing str result k with
  | zero => exact h
  | succ len ih =>
    have hk : 8 ^ k ≤ 8 ^ 20 := Nat.pow_le_pow_right (by norm_num) (by omega)
    rw [octalToUint64]
    split
    · rename_i hdigit
      obtain ⟨-, hd⟩ := toNat_digit hdigit
      have hnext := ih (str + 1) (result <<< 3 ||| (m str - 0x30).toUInt64) (k + 1)
        (by
          rw [toNat_octal_digit (by omega) hd]
          omega) (by omega)
      rwa [Nat.add_right_comm] at hnext
    · exact h.trans_le (Nat.pow_le_pow_right (by norm_num) (by omega))

/-- Eleven octal digits. -/
theorem fileSize_lt (tar : Memory) (hdr : UInt64) : (fileSize tar hdr).toNat < 2 ^ 33 := by
  have h := octalToUint64_lt tar (hdr + 124) 11 0 0 (by norm_num) (by norm_num)
  exact h

theorem toNat_paddedSize {n : UInt64} (hn : n.toNat < 2 ^ 33) :
    (paddedSize n).toNat = (n.toNat + 511) / 512 * 512 := by
  have h511 : (511 : UInt64).toNat = 511 := rfl
  have h512 : (512 : UInt64).toNat = 512 := rfl
  unfold paddedSize
  rw [UInt64.toNat_mul, UInt64.toNat_div, UInt64.toNat_add, h511, h512]
  omega

/-- Where the walk goes from the header at `hdr`. -/
theorem toNat_nextHeader (tar : Memory) (hdr : UInt64) (h : hdr.toNat < 2 ^ 63) :
    (hdr + 512 + paddedSize (fileSize tar hdr)).toNat =
      hdr.toNat + 512 + ((fileSize tar hdr).toNat + 511) / 512 * 512 := by
  have hsize := fileSize_lt tar hdr
  have h512 : (512 : UInt64).toNat = 512 := rfl
  rw [UInt64.toNat_add, UInt64.toNat_add, toNat_paddedSize hsize, h512]
  omega

/-- In a buffer that fits into memory the sum does not wrap. -/
theorem header_fits_iff {off tarSize : UInt64} (hsize : tarSize.toNat < 2 ^ 63)
    (hoff : off.toNat < 2 ^ 63 + 2 ^ 34) : off + 512 ≤ tarSize ↔ off.toNat + 512 ≤ tarSize.toNat := by
  have h512 : (512 : UInt64).toNat = 512 := rfl
  rw [UInt64.le_iff_toNat_le, UInt64.toNat_add, h512]
  omega

/-! ## The whole walk -/

/-- The headers of the walk when no callback stops it. -/
def headerOffsets (tar : Memory) (tarSize : UInt64) (fuel : ℕ) (offset : UInt64) : List UInt64 :=
  match fuel with
  | 0 => []
  | fuel + 1 =>
    if offset + 512 ≤ tarSize ∧ endOfArchive tar offset = false then
      offset :: headerOffsets tar tarSize fuel (offset + 512 + paddedSize (fileSize tar offset))
    else []

/-- Reads and the data of calls lie in the buffer. -/
def Event.Inside (tarSize : UInt64) : Event → Prop
  | .read off n => off.toNat + n ≤ tarSize.toNat
  | .call c => ∀ d, c.data = some d → d.toNat + c.size.toNat ≤ tarSize.toNat

theorem headerReads_inside (tar : Memory) {hdr tarSize : UInt64}
    (h : hdr.toNat + 512 ≤ tarSize.toNat) (hsize : tarSize.toNat < 2 ^ 63) :
    ∀ e ∈ headerReads tar hdr, e.Inside tarSize := by
  have hadd (d : UInt64) (n : ℕ) (hd : d.toNat + n ≤ 512) :
      (Event.read (hdr + d) n).Inside tarSize := by
    change (hdr + d).toNat + n ≤ tarSize.toNat
    rw [UInt64.toNat_add]
    omega
  have hname : (Event.read hdr 1).Inside tarSize := by
    change hdr.toNat + 1 ≤ tarSize.toNat
    omega
  have hblock : (Event.read hdr 512).Inside tarSize := h
  intro e he
  unfold headerReads at he
  split at he
  · rw [List.mem_singleton.mp he]
    exact hname
  · rcases List.mem_append.mp he with he | he
    · rcases List.mem_append.mp he with he | he
      · rcases List.mem_pair.mp he with rfl | rfl
        · exact hname
        · exact hadd 257 5 (by decide)
      · split at he
        · rw [List.mem_singleton.mp he]
          exact hblock
        · cases he
    · split at he
      · cases he
      · rcases List.mem_pair.mp he with rfl | rfl
        · exact hadd 124 11 (by decide)
        · exact hadd 156 1 (by decide)

/-- The call for a header, with the callback or without. -/
theorem runCallback_log {σ : Type*} (callback : Option (Call → σ → ℤ × σ)) (call : Option Call)
    (s : σ) : ∀ e ∈ (runCallback callback call s).2.1, ∃ c, call = some c ∧ e = .call c := by
  intro e he
  unfold runCallback at he
  split at he
  · rw [List.mem_singleton.mp he]
    exact ⟨_, rfl, rfl⟩
  · cases he

/-- With enough fuel the walk ends.  It reads inside the buffer and makes calls for the headers
it visits. -/
theorem tarLoop_run {σ : Type*} (tar : Memory) {tarSize : UInt64} (hsize : tarSize.toNat < 2 ^ 63)
    (callback : Option (Call → σ → ℤ × σ)) (fuel : ℕ) (s : σ) (offset : UInt64)
    (hoff : offset.toNat < 2 ^ 63 + 2 ^ 34) (hpos : 0 < fuel)
    (hfuel : tarSize.toNat < offset.toNat + 512 * fuel) :
    ∃ r log s', tarLoop tar tarSize callback fuel offset s = some (r, log, s') ∧
      ∀ e ∈ log, e.Inside tarSize ∨
        ∃ hdr ∈ headerOffsets tar tarSize fuel offset, ∃ c, headerCall tar hdr = some c ∧
          e = .call c := by
  induction fuel generalizing offset s with
  | zero => exact absurd hpos (lt_irrefl 0)
  | succ fuel ih =>
    rw [tarLoop, headerOffsets]
    by_cases hfits : offset + 512 ≤ tarSize
    swap
    · rw [if_neg hfits]
      exact ⟨0, [], s, rfl, by simp⟩
    have hfits' := (header_fits_iff hsize hoff).mp hfits
    have hreads := headerReads_inside tar hfits' hsize
    rw [if_pos hfits]
    by_cases hend : endOfArchive tar offset = true
    · rw [if_pos hend]
      exact ⟨0, _, s, rfl, fun e he => Or.inl (hreads e he)⟩
    have hheader : offset + 512 ≤ tarSize ∧ endOfArchive tar offset = false :=
      ⟨hfits, Bool.eq_false_iff.mpr hend⟩
    rw [if_neg hend, if_pos hheader]
    dsimp only
    -- the one call of this round is for the header at `offset`
    have hcall := runCallback_log callback (headerCall tar offset) s
    generalize runCallback callback (headerCall tar offset) s = called at hcall ⊢
    have hlog : ∀ e ∈ headerReads tar offset ++ called.2.1, e.Inside tarSize ∨
        ∃ hdr ∈ offset :: headerOffsets tar tarSize fuel
          (offset + 512 + paddedSize (fileSize tar offset)), ∃ c, headerCall tar hdr = some c ∧
            e = .call c := by
      intro e he
      rcases List.mem_append.mp he with he | he
      · exact Or.inl (hreads e he)
      · obtain ⟨c, hc, heq⟩ := hcall e he
        exact Or.inr ⟨offset, List.mem_cons_self, c, hc, heq⟩
    -- a result other than 0 ends the loop
    by_cases hresult : called.1 ≠ 0
    · rw [if_pos hresult]
      exact ⟨called.1, _, called.2.2, rfl, hlog⟩
    rw [if_neg hresult]
    have hnext := toNat_nextHeader tar offset (by omega)
    have hfile := fileSize_lt tar offset
    obtain ⟨r, log, s', heq, hrest⟩ := ih called.2.2
      (offset + 512 + paddedSize (fileSize tar offset)) (by omega) (by omega) (by omega)
    rw [heq]
    refine ⟨r, _, s', rfl, fun e he => ?_⟩
    rcases List.mem_append.mp he with he | he
    · exact hlog e he
    · rcases hrest e he with hin | ⟨hdr, hhdr, hc⟩
      · exact Or.inl hin
      · exact Or.inr ⟨hdr, List.mem_cons_of_mem _ hhdr, hc⟩

/-- Every header of the walk lies in the buffer. -/
theorem headerOffsets_fit (tar : Memory) {tarSize : UInt64} (hsize : tarSize.toNat < 2 ^ 63)
    (fuel : ℕ) {offset : UInt64} (hoff : offset.toNat < 2 ^ 63 + 2 ^ 34) :
    ∀ hdr ∈ headerOffsets tar tarSize fuel offset, hdr.toNat + 512 ≤ tarSize.toNat := by
  induction fuel generalizing offset with
  | zero =>
    intro hdr hhdr
    cases hhdr
  | succ fuel ih =>
    rw [headerOffsets]
    split
    · rename_i hfits
      have hfits' := (header_fits_iff hsize hoff).mp hfits.1
      have hnext := toNat_nextHeader tar offset (by omega)
      have hfile := fileSize_lt tar offset
      exact List.forall_mem_cons.mpr ⟨hfits', ih (by omega)⟩
    · simp

/-- A callback that never stops the walk is called for every header. -/
theorem call_mem_log (tar : Memory) (tarSize : UInt64) (fuel : ℕ) {offset : UInt64} {r : ℤ}
    {log : List Event} {s' : Unit}
    (h : tarLoop tar tarSize (some fun _ s => (0, s)) fuel offset () = some (r, log, s'))
    (fuel' : ℕ) {hdr : UInt64} (hhdr : hdr ∈ headerOffsets tar tarSize fuel' offset) {c : Call}
    (hc : headerCall tar hdr = some c) : Event.call c ∈ log := by
  induction fuel generalizing offset log fuel' r with
  | zero => cases h
  | succ fuel ih =>
    cases fuel' with
    | zero => cases hhdr
    | succ fuel' =>
      rw [headerOffsets] at hhdr
      split at hhdr
      · rename_i hfits
        rw [tarLoop, if_pos hfits.1, if_neg (by simp [hfits.2])] at h
        dsimp only at h
        have hzero (call : Option Call) :
            (runCallback (some fun _ s => ((0 : ℤ), s)) call ()).1 = 0 := by cases call <;> rfl
        rw [if_neg (not_not.mpr (hzero _))] at h
        obtain ⟨rest, hrest, heq⟩ := Option.map_eq_some_iff.mp h
        obtain ⟨-, hlog⟩ := Prod.mk.inj heq
        rw [← (Prod.mk.inj hlog).1]
        rcases List.mem_cons.mp hhdr with rfl | hhdr
        · apply List.mem_append_left
          apply List.mem_append_right
          rw [hc]
          exact List.mem_singleton_self _
        · exact List.mem_append_right _ (ih hrest fuel' hhdr)
      · cases hhdr

/-- `tar_extract_all` ends, reads inside the buffer and passes data inside the buffer, with any
callback. -/
def ExtractSafe (tar : Memory) (tarSize : UInt64) : Prop :=
  ∀ (σ : Type) (callback : Option (Call → σ → ℤ × σ)) (s : σ), ∃ fuel r log s',
    tarExtractAll tar tarSize callback fuel s = some (r, log, s') ∧ ∀ e ∈ log, e.Inside tarSize

theorem headerCall_inside (tar : Memory) {hdr tarSize : UInt64} {c : Call}
    (hc : headerCall tar hdr = some c)
    (hfile : isFile tar hdr = true → hdr.toNat + 512 + (fileSize tar hdr).toNat ≤ tarSize.toNat) :
    (Event.call c).Inside tarSize := by
  have h512 : (512 : UInt64).toNat = 512 := rfl
  unfold headerCall at hc
  intro d hd
  split at hc
  · rename_i hf
    rw [← Option.some.inj hc] at hd ⊢
    rw [← Option.some.inj hd]
    have := hfile hf
    have := tarSize.toNat_lt
    dsimp only
    rw [UInt64.toNat_add, h512]
    omega
  · split at hc
    · rw [← Option.some.inj hc] at hd
      cases hd
    · cases hc

/-- In a safe walk the data of each file ends inside the buffer. -/
theorem ExtractSafe.fits {tar : Memory} {tarSize : UInt64} (hsafe : ExtractSafe tar tarSize)
    (hsize : tarSize.toNat < 2 ^ 63) (fuel : ℕ) {hdr : UInt64}
    (hhdr : hdr ∈ headerOffsets tar tarSize fuel 0) (hfile : isFile tar hdr = true) :
    hdr.toNat + 512 + (fileSize tar hdr).toNat ≤ tarSize.toNat := by
  obtain ⟨fuel', r, log, s', heq, hin⟩ := hsafe Unit (some fun _ s => (0, s)) ()
  have hfit := headerOffsets_fit tar hsize _ (by norm_num) hdr hhdr
  have h512 : (512 : UInt64).toNat = 512 := rfl
  have hlarge : ¬ tarSize < 512 := by
    rw [UInt64.lt_iff_toNat_lt]
    omega
  rw [tarExtractAll, if_neg hlarge] at heq
  have hcall : headerCall tar hdr = some ⟨hdr, some (hdr + 512), fileSize tar hdr⟩ := if_pos hfile
  have hinside := hin _ (call_mem_log tar tarSize fuel' heq _ hhdr hcall) _ rfl
  rw [UInt64.toNat_add, h512] at hinside
  have := tarSize.toNat_lt
  dsimp only at hinside
  omega

/-- The walk is safe exactly when the data of each file it comes to ends inside the buffer. -/
theorem extractSafe_iff (tar : Memory) {tarSize : UInt64} (hsize : tarSize.toNat < 2 ^ 63) :
    ExtractSafe tar tarSize ↔
      ∀ hdr ∈ headerOffsets tar tarSize (tarSize.toNat / 512 + 1) 0, isFile tar hdr = true →
        hdr.toNat + 512 + (fileSize tar hdr).toNat ≤ tarSize.toNat := by
  constructor
  · exact fun hsafe hdr hhdr => hsafe.fits hsize _ hhdr
  · intro hfits σ callback s
    refine ⟨tarSize.toNat / 512 + 1, ?_⟩
    rw [tarExtractAll]
    by_cases hsmall : tarSize < 512
    · rw [if_pos hsmall]
      exact ⟨-1, [], s, rfl, by simp⟩
    rw [if_neg hsmall]
    have hfuel : tarSize.toNat < UInt64.toNat 0 + 512 * (tarSize.toNat / 512 + 1) := by
      rw [UInt64.toNat_zero, Nat.zero_add]
      exact Nat.lt_mul_div_succ _ (by norm_num)
    obtain ⟨r, log, s', heq, hlog⟩ := tarLoop_run tar hsize callback (tarSize.toNat / 512 + 1)
      s 0 (by norm_num) (Nat.succ_pos _) hfuel
    refine ⟨r, log, s', heq, fun e he => ?_⟩
    rcases hlog e he with hin | ⟨hdr, hhdr, c, hc, rfl⟩
    · exact hin
    · exact headerCall_inside tar hc (hfits hdr hhdr)

/-- The header of a file `a` with the given octal digits for its size. -/
def smallHeader (digits : List UInt8) : List UInt8 :=
  [0x61] ++ .replicate 123 0 ++ digits ++ .replicate 21 0 ++ [0x30] ++ .replicate 100 0 ++ ustar ++
    .replicate 250 0

/-- A file of three bytes and a zero block. -/
theorem extractSafe_iff_small :
    ExtractSafe (Memory.ofBytes
      (smallHeader [0x30, 0x30, 0x30, 0x30, 0x30, 0x30, 0x30, 0x30, 0x30, 0x30, 0x33] ++
        [0x78, 0x79, 0x7A])) 1536 := by
  have hsize : (1536 : UInt64).toNat < 2 ^ 63 := show 1536 < 2 ^ 63 by norm_num
  apply (extractSafe_iff _ hsize).mpr
  generalize htar : Memory.ofBytes
    (smallHeader [0x30, 0x30, 0x30, 0x30, 0x30, 0x30, 0x30, 0x30, 0x30, 0x30, 0x33] ++
      [0x78, 0x79, 0x7A]) = tar
  have hfile : fileSize tar 0 = 3 := by
    rw [← htar]
    decide +kernel
  have hfirst : endOfArchive tar 0 = false := by
    rw [← htar]
    decide +kernel
  have hlast : endOfArchive tar 1024 = true := by
    rw [← htar]
    decide +kernel
  have hnext : (0 : UInt64) + 512 + paddedSize 3 = 1024 := by decide
  have hfuel : (1536 : UInt64).toNat / 512 + 1 = 4 := rfl
  rw [hfuel, headerOffsets, if_pos ⟨by decide, hfirst⟩, hfile, hnext, headerOffsets,
    if_neg (by simp [hlast])]
  intro hdr hhdr _
  rw [List.mem_singleton.mp hhdr, hfile]
  decide

/-- The header promises 512 bytes, but the archive ends behind it. -/
theorem extract_past_end :
    ¬ ExtractSafe (Memory.ofBytes
      (smallHeader [0x30, 0x30, 0x30, 0x30, 0x30, 0x30, 0x30, 0x31, 0x30, 0x30, 0x30])) 512 := by
  intro hsafe
  have hsize : (512 : UInt64).toNat < 2 ^ 63 := show 512 < 2 ^ 63 by norm_num
  generalize htar : Memory.ofBytes
    (smallHeader [0x30, 0x30, 0x30, 0x30, 0x30, 0x30, 0x30, 0x31, 0x30, 0x30, 0x30]) = tar at hsafe
  have hfile : fileSize tar 0 = 512 := by
    rw [← htar]
    decide +kernel
  have hfirst : endOfArchive tar 0 = false := by
    rw [← htar]
    decide +kernel
  have hregular : isFile tar 0 = true := by
    rw [← htar]
    decide +kernel
  have hhdr : 0 ∈ headerOffsets tar 512 1 0 := by
    rw [headerOffsets, if_pos ⟨by decide, hfirst⟩]
    exact List.mem_cons_self
  have hfits := hsafe.fits hsize 1 hhdr hregular
  rw [hfile] at hfits
  exact absurd hfits (by decide)

end Rhoudveine.Tar
