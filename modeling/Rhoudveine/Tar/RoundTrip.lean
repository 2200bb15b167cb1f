import Rhoudveine.Tar.Extract

/-!
# Archives of members

The ustar encoding of a list of members, and what `tar_extract_all` makes of it.
-/

namespace Rhoudveine.Tar
open Memory

/-! ## The encoding -/

/-- A regular file, with the type flag `'0'` or the older NUL, or a directory. -/
inductive Kind
  | file (flag0 : Bool) (content : List UInt8)
  | dir

namespace Kind

def content : Kind → List UInt8
  | file _ content => content
  | dir => []

def typeflag : Kind → UInt8
  | file true _ => 0x30
  | file false _ => 0
  | dir => 0x35

end Kind

/-- A member of an archive.  The fields that nobody reads are kept as the bytes of the header:
`mode` to `gid`, the byte behind the size, `mtime` and `chksum`, and `version` to `devminor`. -/
structure Member where
  pathPrefix : List UInt8
  name : List UInt8
  kind : Kind
  mode : List UInt8
  sizeEnd : UInt8
  times : List UInt8
  owner : List UInt8

/-- The path of a member, `prefix/name` when there is a prefix. -/
def Member.path (m : Member) : List UInt8 :=
  if m.pathPrefix = [] then m.name else m.pathPrefix ++ 0x2F :: m.name

/-- `k` octal digits, most significant first. -/
def octalDigits : ℕ → ℕ → List UInt8
  | 0, _ => []
  | k + 1, n => UInt8.ofNat (0x30 + n / 8 ^ k % 8) :: octalDigits k n

/-- A field filled up with NULs. -/
def padTo (k : ℕ) (bs : List UInt8) : List UInt8 := bs ++ List.replicate (k - bs.length) 0

/-- The bytes of the header behind the name and in front of the linked name. -/
def Member.numbers (m : Member) : List UInt8 :=
  m.mode ++ octalDigits 11 m.kind.content.length ++ m.sizeEnd :: m.times ++ [m.kind.typeflag]

/-- The header of a member; files and directories have no linked name. -/
def Member.header (m : Member) : List UInt8 :=
  padTo 100 m.name ++ m.numbers ++ List.replicate 100 0 ++ ustar ++ 0 :: m.owner ++
    padTo 155 m.pathPrefix ++ List.replicate 12 0

def padding (n : ℕ) : List UInt8 := List.replicate ((n + 511) / 512 * 512 - n) 0

def Member.encode (m : Member) : List UInt8 :=
  m.header ++ m.kind.content ++ padding m.kind.content.length

/-- The members, a zero block, and whatever follows it. -/
def encode (ms : List Member) (trailer : List UInt8) : List UInt8 :=
  ms.flatMap Member.encode ++ List.replicate 512 0 ++ trailer

/-- A byte of a numeric field: an octal digit, a space or a NUL. -/
def NumericByte (b : UInt8) : Prop := 0x30 ≤ b ∧ b ≤ 0x37 ∨ b = 0x20 ∨ b = 0

/-- What ustar says about the fields of a member. -/
structure Member.Valid (m : Member) : Prop where
  name_pos : m.name ≠ []
  name_length : m.name.length ≤ 100
  name_zero : 0 ∉ m.name
  prefix_length : m.pathPrefix.length ≤ 155
  prefix_zero : 0 ∉ m.pathPrefix
  content_length : m.kind.content.length < 8 ^ 11
  mode_length : m.mode.length = 24
  mode_first : ∃ b bs, m.mode = b :: bs ∧ 0x30 ≤ b ∧ b ≤ 0x37
  times_length : m.times.length = 20
  owner_length : m.owner.length = 82
  numeric : ∀ b ∈ m.mode ++ m.sizeEnd :: m.times, NumericByte b

/-! ## Fields of an encoded header -/

@[simp] theorem length_octalDigits (k n : ℕ) : (octalDigits k n).length = k := by
  induction k with
  | zero => rfl
  | succ k ih => rw [octalDigits, List.length_cons, ih]

@[simp] theorem length_padTo {k : ℕ} {bs : List UInt8} (h : bs.length ≤ k) :
    (padTo k bs).length = k := by
  rw [padTo, List.length_append, List.length_replicate]
  omega

theorem toNat_octalDigit (n k : ℕ) :
    (UInt8.ofNat (0x30 + n / 8 ^ k % 8)).toNat = 0x30 + n / 8 ^ k % 8 := by
  rw [UInt8.toNat_ofNat']
  omega

/-- `octal_to_uint64` reads the digits of a number back. -/
theorem octalToUint64_digits {m : Memory} {str : UInt64} (k n : ℕ) (result : UInt64)
    (h : Holds m str (octalDigits k n)) (hresult : result.toNat * 8 ^ k + n % 8 ^ k < 2 ^ 61) :
    (octalToUint64 m str k result).toNat = result.toNat * 8 ^ k + n % 8 ^ k := by
  induction k generalizing str result with
  | zero => rw [octalToUint64, pow_zero, Nat.mod_one, mul_one, add_zero]
  | succ k ih =>
    obtain ⟨hfirst, hrest⟩ := h
    have hdigit := toNat_octalDigit n k
    have hlt : n / 8 ^ k % 8 < 8 := Nat.mod_lt _ (by norm_num)
    have hrange : 0x30 ≤ m str ∧ m str ≤ 0x37 := by
      rw [hfirst, UInt8.le_iff_toNat_le, UInt8.le_iff_toNat_le, hdigit]
      have h30 : (0x30 : UInt8).toNat = 0x30 := rfl
      have h37 : (0x37 : UInt8).toNat = 0x37 := rfl
      omega
    obtain ⟨hvalue, hsmall⟩ := toNat_digit hrange
    rw [hfirst, hdigit, Nat.add_sub_cancel_left] at hvalue
    have hpow : n % 8 ^ (k + 1) = n / 8 ^ k % 8 * 8 ^ k + n % 8 ^ k := by
      rw [pow_succ, Nat.mod_mul, add_comm, mul_comm]
    have hle : result.toNat * 8 ≤ result.toNat * 8 ^ (k + 1) :=
      Nat.mul_le_mul_left _ (Nat.le_self_pow (Nat.succ_ne_zero k) 8)
    have hnext : (result <<< 3 ||| (m str - 0x30).toUInt64).toNat =
        8 * result.toNat + (m str - 0x30).toUInt64.toNat := toNat_octal_digit (by omega) hsmall
    have heq : (result <<< 3 ||| (m str - 0x30).toUInt64).toNat * 8 ^ k + n % 8 ^ k =
        result.toNat * 8 ^ (k + 1) + n % 8 ^ (k + 1) := by
      rw [hnext, hpow, hfirst, hvalue]
      ring
    rw [octalToUint64, if_pos hrange, ih _ hrest (heq ▸ hresult), heq]

theorem add_ofNat_ofNat (a : UInt64) (k n : ℕ) :
    a + UInt64.ofNat k + UInt64.ofNat n = a + UInt64.ofNat (k + n) := by
  rw [UInt64.ofNat_add, UInt64.add_assoc]

/-- The bytes of a header in which the name ends. -/
def Member.nameBytes (m : Member) : List UInt8 := padTo 100 m.name ++ m.numbers ++ List.replicate 100 0

theorem myStrncmp_of_holds {tar : Memory} {s1 : UInt64} {s2 : List UInt8} (hholds : Holds tar s1 s2) :
    myStrncmp tar s1 s2 = 0 := by
  induction s2 generalizing s1 with
  | nil => rfl
  | cons c s2 ih =>
    rw [myStrncmp, if_neg (not_not.mpr hholds.1)]
    split
    · rfl
    · exact ih hholds.2

section header

variable {m : Member} (h : m.Valid)
include h

theorem Member.Valid.length_numbers : m.numbers.length = 57 := by
  simp [Member.numbers, h.mode_length, h.times_length]

theorem Member.Valid.length_nameBytes : m.nameBytes.length = 257 := by
  simp [Member.nameBytes, length_padTo h.name_length, h.length_numbers]

theorem Member.Valid.length_header : m.header.length = 512 := by
  simp [Member.header, length_padTo h.name_length, length_padTo h.prefix_length, h.length_numbers,
    h.owner_length, ustar]

/-- The fields of an encoded header. -/
theorem Member.Valid.holds_header {tar : Memory} {hdr : UInt64} (hholds : Holds tar hdr m.header) :
    Holds tar hdr m.nameBytes ∧ Holds tar (hdr + 124) (octalDigits 11 m.kind.content.length) ∧
      typeflag tar hdr = m.kind.typeflag ∧ Holds tar (hdr + 257) ustar := by
  have hpad := length_padTo h.name_length
  have hheader : m.header = m.nameBytes ++ (ustar ++ (0 :: m.owner ++ padTo 155 m.pathPrefix ++
      List.replicate 12 0)) := by
    simp [Member.header, Member.nameBytes]
  rw [hheader, holds_append, h.length_nameBytes, holds_append] at hholds
  obtain ⟨hname, hustar, -⟩ := hholds
  have hfields := hname
  have hsplit : m.nameBytes = padTo 100 m.name ++ (m.mode ++ (octalDigits 11 m.kind.content.length ++
      (m.sizeEnd :: m.times ++ (m.kind.typeflag :: List.replicate 100 0)))) := by
    simp [Member.nameBytes, Member.numbers]
  rw [hsplit, holds_append, holds_append, holds_append, holds_append, hpad, h.mode_length,
    length_octalDigits, List.length_cons, h.times_length] at hfields
  obtain ⟨-, -, hsize, -, hflag, -⟩ := hfields
  rw [add_ofNat_ofNat] at hsize
  rw [add_ofNat_ofNat, add_ofNat_ofNat, add_ofNat_ofNat] at hflag
  exact ⟨hname, hsize, hflag, hustar⟩

theorem Member.Valid.header_spec {tar : Memory} {hdr : UInt64} (hholds : Holds tar hdr m.header) :
    endOfArchive tar hdr = false ∧ (fileSize tar hdr).toNat = m.kind.content.length ∧
      typeflag tar hdr = m.kind.typeflag := by
  obtain ⟨hname, hsize, hflag, hustar⟩ := h.holds_header hholds
  refine ⟨?_, ?_, hflag⟩
  · obtain ⟨b, bs, hb⟩ := List.exists_cons_of_ne_nil h.name_pos
    have hfirst : tar hdr = b := by
      rw [Member.nameBytes, padTo, hb] at hname
      exact hname.1
    have hzero : b ≠ 0 := by
      rintro rfl
      exact h.name_zero (by rw [hb]; exact List.mem_cons_self)
    unfold endOfArchive
    rw [hfirst, myStrncmp_of_holds hustar]
    simpa using hzero
  · have hlt := h.content_length
    have hvalue := octalToUint64_digits 11 m.kind.content.length 0 hsize (by
      rw [UInt64.toNat_zero, Nat.mod_eq_of_lt hlt]
      omega)
    rw [UInt64.toNat_zero, Nat.mod_eq_of_lt hlt, Nat.zero_mul, Nat.zero_add] at hvalue
    exact hvalue

end header

/-! ## The path a callback sees -/

/-- The string at the start of a header. -/
def Member.seen (m : Member) : List UInt8 := m.nameBytes.takeWhile (· ≠ 0)

theorem Member.cStr_seen {m : Member} {tar : Memory} {hdr : UInt64}
    (hholds : Holds tar hdr m.nameBytes) : CStr tar hdr m.seen := by
  apply cStr_of_holds hholds
  apply List.mem_append_right
  simp

theorem takeWhile_of_not_mem {bs : List UInt8} (h : 0 ∉ bs) : bs.takeWhile (· ≠ 0) = bs := by
  rw [List.takeWhile_eq_self_iff]
  intro b hb
  have hne : b ≠ 0 := fun hzero => h (hzero ▸ hb)
  simpa using hne

theorem NumericByte.ne_slash {b : UInt8} (h : NumericByte b) : b ≠ 0x2F := by
  rintro rfl
  revert h
  unfold NumericByte
  decide

/-- The fields behind the name hold no slash. -/
theorem Member.Valid.slash_not_mem {m : Member} (h : m.Valid) : 0x2F ∉ m.numbers := by
  intro hmem
  unfold Member.numbers at hmem
  have hoctal (k n : ℕ) : 0x2F ∉ octalDigits k n := by
    induction k with
    | zero => simp [octalDigits]
    | succ k ih =>
      rw [octalDigits]
      intro hmem
      rcases List.mem_cons.mp hmem with hd | hmem
      · have hnat := congrArg UInt8.toNat hd
        rw [toNat_octalDigit] at hnat
        have hslash : (0x2F : UInt8).toNat = 0x2F := rfl
        omega
      · exact ih hmem
  have hflag : m.kind.typeflag ≠ 0x2F := by
    cases m.kind with
    | file flag0 content => cases flag0 <;> simp [Kind.typeflag]
    | dir => simp [Kind.typeflag]
  simp only [List.mem_append, List.mem_cons, List.not_mem_nil, or_false] at hmem
  rcases hmem with ((hmem | hmem) | hmem | hmem) | hmem
  · exact (h.numeric _ (by simp [hmem])).ne_slash rfl
  · exact hoctal _ _ hmem
  · exact (h.numeric _ (by simp [hmem])).ne_slash rfl
  · exact (h.numeric _ (by simp [hmem])).ne_slash rfl
  · exact hflag hmem.symm

/-- The string is the path of the member exactly when there is no prefix and the name leaves
room for a NUL. -/
theorem Member.Valid.seen_eq_path_iff {m : Member} (h : m.Valid) :
    m.seen = m.path ↔ m.pathPrefix = [] ∧ m.name.length < 100 := by
  by_cases hlen : m.name.length < 100
  · have hseen : m.seen = m.name := by
      obtain ⟨k, hk⟩ : ∃ k, 100 - m.name.length = k + 1 := ⟨99 - m.name.length, by omega⟩
      rw [Member.seen, Member.nameBytes, padTo, hk, List.replicate_succ, List.append_assoc,
        List.append_assoc, List.takeWhile_append_of_pos (by
          intro b hb
          have hne : b ≠ 0 := fun hzero => h.name_zero (hzero ▸ hb)
          simpa using hne)]
      simp
    rw [hseen, Member.path]
    constructor
    · intro heq
      refine ⟨?_, hlen⟩
      by_contra hpathPrefix
      rw [if_neg hpathPrefix] at heq
      have hlength := congrArg List.length heq
      rw [List.length_append, List.length_cons] at hlength
      omega
    · exact fun hcond => (if_pos hcond.1).symm
  · -- the string goes on behind the name
    apply iff_of_false _ fun hcond => hlen hcond.2
    have hfull : padTo 100 m.name = m.name := by
      have := h.name_length
      rw [padTo, show 100 - m.name.length = 0 by omega]
      exact List.append_nil _
    have hseen : m.seen = m.name ++ (m.numbers ++ List.replicate 100 0).takeWhile (· ≠ 0) := by
      rw [Member.seen, Member.nameBytes, hfull, List.append_assoc,
        List.takeWhile_append_of_pos (by
          intro b hb
          have hne : b ≠ 0 := fun hzero => h.name_zero (hzero ▸ hb)
          simpa using hne)]
    obtain ⟨b, bs, hmode, hdigit⟩ := h.mode_first
    have htail : (m.numbers ++ List.replicate 100 0).takeWhile (· ≠ 0) ≠ [] := by
      have hne : b ≠ 0 := by
        rintro rfl
        exact absurd hdigit.1 (by decide)
      rw [Member.numbers, hmode, List.cons_append, List.cons_append, List.cons_append,
        List.cons_append, List.takeWhile_cons_of_pos (by simpa using hne)]
      exact List.cons_ne_nil _ _
    have hslash : 0x2F ∉ (m.numbers ++ List.replicate 100 0).takeWhile (· ≠ 0) := by
      intro hmem
      rcases List.mem_append.mp (List.takeWhile_subset _ hmem) with hmem | hmem
      · exact h.slash_not_mem hmem
      · exact absurd (List.eq_of_mem_replicate hmem) (by decide)
    rw [hseen, Member.path]
    intro heq
    split at heq
    · exact htail (List.append_right_eq_self.mp heq)
    · -- the path has one slash more than the name, the string has none
      have hcount := congrArg (List.count 0x2F) heq
      rw [List.count_append, List.count_append, List.count_cons_self,
        List.count_eq_zero_of_not_mem hslash] at hcount
      omega

/-! ## The walk over an encoded archive -/

def callsOf (log : List Event) : List Call :=
  log.filterMap fun e => match e with
    | .call c => some c
    | .read _ _ => none

theorem callsOf_append (log log' : List Event) : callsOf (log ++ log') = callsOf log ++ callsOf log' :=
  List.filterMap_append

theorem callsOf_headerReads (tar : Memory) (hdr : UInt64) : callsOf (headerReads tar hdr) = [] := by
  unfold headerReads
  split
  · rfl
  · split
    · split
      · rfl
      · rfl
    · split
      · rfl
      · rfl

/-- The call for a member whose header is at `hdr`. -/
def Member.call (m : Member) (hdr : UInt64) : Call :=
  match m.kind with
  | .file _ content => ⟨hdr, some (hdr + 512), UInt64.ofNat content.length⟩
  | .dir => ⟨hdr, none, 0⟩

def memberCalls (hdr : UInt64) : List Member → List Call
  | [] => []
  | m :: ms => m.call hdr :: memberCalls (hdr + UInt64.ofNat m.encode.length) ms

theorem Member.Valid.headerCall_eq {m : Member} (h : m.Valid) {tar : Memory} {hdr : UInt64}
    (hholds : Holds tar hdr m.header) : headerCall tar hdr = some (m.call hdr) := by
  obtain ⟨-, hsize, hflag⟩ := h.header_spec hholds
  have hlt := h.content_length
  unfold headerCall isFile Member.call
  rw [hflag]
  cases hkind : m.kind with
  | file flag0 content =>
    rw [hkind] at hsize
    have hfile : fileSize tar hdr = UInt64.ofNat content.length := by
      rw [← UInt64.ofNat_toNat (x := fileSize tar hdr), hsize]
      rfl
    rw [hfile]
    cases flag0 <;> rfl
  | dir => rfl

theorem Member.Valid.length_encode {m : Member} (h : m.Valid) :
    m.encode.length = 512 + (m.kind.content.length + 511) / 512 * 512 := by
  rw [Member.encode, List.length_append, List.length_append, h.length_header, padding,
    List.length_replicate]
  omega

/-- The next header is where the walk looks for it. -/
theorem Member.Valid.next_eq {m : Member} (h : m.Valid) {tar : Memory} {hdr : UInt64}
    (hholds : Holds tar hdr m.header) :
    hdr + 512 + paddedSize (fileSize tar hdr) = hdr + UInt64.ofNat m.encode.length := by
  obtain ⟨-, hsize, -⟩ := h.header_spec hholds
  have hlt := h.content_length
  have hpadded : paddedSize (fileSize tar hdr) =
      UInt64.ofNat ((m.kind.content.length + 511) / 512 * 512) := by
    apply UInt64.toNat_inj.mp
    rw [toNat_paddedSize (by omega), hsize, UInt64.toNat_ofNat']
    omega
  rw [hpadded, h.length_encode, UInt64.ofNat_add, UInt64.add_assoc]
  rfl

theorem header_fits {off tarSize : UInt64} (hsize : tarSize.toNat < 2 ^ 63)
    (h : off.toNat + 512 ≤ tarSize.toNat) : off + 512 ≤ tarSize :=
  (header_fits_iff hsize (by omega)).mpr h

theorem toNat_add_ofNat {off tarSize : UInt64} {n : ℕ} (h : off.toNat + n ≤ tarSize.toNat) :
    (off + UInt64.ofNat n).toNat = off.toNat + n := by
  have hlt := tarSize.toNat_lt
  rw [UInt64.toNat_add, UInt64.toNat_ofNat']
  omega

/-- The data of a member behind its header. -/
theorem Member.Valid.call_inside {m : Member} (h : m.Valid) {hdr stop : UInt64}
    (hinside : hdr.toNat + m.encode.length ≤ stop.toNat) :
    (Event.call (m.call hdr)).Inside stop := by
  intro d hd
  have hlength := h.length_encode
  unfold Member.call at hd ⊢
  cases hkind : m.kind with
  | file flag0 content =>
    rw [hkind] at hd hlength
    obtain rfl : hdr + 512 = d := Option.some.inj hd
    rw [Kind.content] at hlength
    have hround := Nat.div_add_mod (content.length + 511) 512
    have hmod := Nat.mod_lt (content.length + 511) (show 0 < 512 by norm_num)
    have hblock : hdr.toNat + 512 ≤ stop.toNat := by
      linarith only [hinside, hlength, Nat.zero_le ((content.length + 511) / 512 * 512)]
    have hdata : (hdr + UInt64.ofNat 512).toNat = hdr.toNat + 512 := toNat_add_ofNat hblock
    have hsize : (UInt64.ofNat content.length).toNat = content.length := by
      have hlt := h.content_length
      rw [hkind, Kind.content] at hlt
      rw [UInt64.toNat_ofNat', Nat.mod_eq_of_lt (hlt.trans (by norm_num))]
    change (hdr + UInt64.ofNat 512).toNat + (UInt64.ofNat content.length).toNat ≤ stop.toNat
    rw [hdata, hsize]
    linarith only [hinside, hlength, hround, hmod]
  | dir =>
    rw [hkind] at hd
    cases hd

/-- The walk over an archive calls the callback for each member and stops at the zero block. -/
theorem tarLoop_encode {σ : Type*} {tar : Memory} {tarSize stop : UInt64}
    (hsize : tarSize.toNat < 2 ^ 63) (hstop : stop.toNat ≤ tarSize.toNat)
    {f : Call → σ → ℤ × σ} (hf : ∀ c s, (f c s).1 = 0) (ms : List Member)
    (hvalid : ∀ m ∈ ms, m.Valid) (fuel : ℕ) (hfuel : ms.length < fuel) (hdr : UInt64) (s : σ)
    (hholds : Holds tar hdr (ms.flatMap Member.encode ++ List.replicate 512 0))
    (hend : hdr.toNat + (ms.flatMap Member.encode).length + 512 = stop.toNat) :
    ∃ log, tarLoop tar tarSize (some f) fuel hdr s =
        some (0, log, (memberCalls hdr ms).foldl (fun s c => (f c s).2) s) ∧
      callsOf log = memberCalls hdr ms ∧ ∀ e ∈ log, e.Inside stop := by
  have hstop_lt : stop.toNat < 2 ^ 63 := hstop.trans_lt hsize
  induction ms generalizing fuel hdr s with
  | nil =>
    obtain ⟨fuel, rfl⟩ := Nat.exists_eq_succ_of_ne_zero (Nat.pos_iff_ne_zero.mp hfuel)
    -- the block of zeros ends the archive
    have hzero : tar hdr = 0 := hholds.1
    have hstops : endOfArchive tar hdr = true := by
      unfold endOfArchive
      rw [hzero]
      rfl
    have hblock : hdr.toNat + 512 ≤ stop.toNat := hend.le
    rw [tarLoop, if_pos (header_fits hsize (hblock.trans hstop)), if_pos hstops]
    exact ⟨_, rfl, callsOf_headerReads tar hdr, headerReads_inside tar hblock hstop_lt⟩
  | cons m ms ih =>
    obtain ⟨fuel, rfl⟩ := Nat.exists_eq_succ_of_ne_zero
      (Nat.pos_iff_ne_zero.mp (Nat.zero_lt_of_lt hfuel))
    obtain ⟨hm, hms⟩ := List.forall_mem_cons.mp hvalid
    rw [List.flatMap_cons, List.append_assoc, holds_append] at hholds
    rw [List.flatMap_cons, List.length_append] at hend
    have hencode := hholds.1
    rw [Member.encode, List.append_assoc, holds_append] at hencode
    have hlength : 512 ≤ m.encode.length := hm.length_encode ▸ Nat.le_add_right 512 _
    have hblock : hdr.toNat + 512 ≤ stop.toNat := by linarith only [hend, hlength]
    have hinside : hdr.toNat + m.encode.length ≤ stop.toNat := by linarith only [hend]
    have hnext := toNat_add_ofNat hinside
    have hcallback : runCallback (some f) (some (m.call hdr)) s =
        ((f (m.call hdr) s).1, [.call (m.call hdr)], (f (m.call hdr) s).2) := rfl
    -- the rest of the archive begins at the next header
    obtain ⟨log, heq, hcalls, hlog⟩ := ih hms fuel (Nat.lt_of_succ_lt_succ hfuel)
      (hdr + UInt64.ofNat m.encode.length) (f (m.call hdr) s).2 hholds.2
      (by linarith only [hend, hnext])
    rw [tarLoop, if_pos (header_fits hsize (hblock.trans hstop)),
      if_neg (by simp [(hm.header_spec hencode.1).1]), hm.headerCall_eq hencode.1, hcallback]
    dsimp only
    rw [if_neg (not_not.mpr (hf _ _)), hm.next_eq hencode.1, heq]
    refine ⟨_, rfl, ?_, fun e he => ?_⟩
    · rw [callsOf_append, callsOf_append, callsOf_headerReads, hcalls]
      rfl
    · rcases List.mem_append.mp he with he | he
      · rcases List.mem_append.mp he with he | he
        · exact headerReads_inside tar hblock hstop_lt e he
        · rw [List.mem_singleton.mp he]
          exact hm.call_inside hinside
      · exact hlog e he

/-- More fuel does not change the result. -/
theorem tarLoop_mono {σ : Type*} {tar : Memory} {tarSize : UInt64}
    {callback : Option (Call → σ → ℤ × σ)} {fuel fuel' : ℕ} (hle : fuel ≤ fuel') {offset : UInt64}
    {s : σ} {r : ℤ × List Event × σ}
    (h : tarLoop tar tarSize callback fuel offset s = some r) :
    tarLoop tar tarSize callback fuel' offset s = some r := by
  induction fuel generalizing fuel' offset s r with
  | zero => cases h
  | succ fuel ih =>
    obtain ⟨fuel', rfl⟩ := Nat.exists_eq_succ_of_ne_zero (show fuel' ≠ 0 by omega)
    rw [tarLoop] at h ⊢
    by_cases hfits : offset + 512 ≤ tarSize
    swap
    · rwa [if_neg hfits] at h ⊢
    rw [if_pos hfits] at h ⊢
    by_cases hend : endOfArchive tar offset = true
    · rwa [if_pos hend] at h ⊢
    rw [if_neg hend] at h ⊢
    dsimp only at h ⊢
    generalize runCallback callback (headerCall tar offset) s = called at h ⊢
    by_cases hresult : called.1 ≠ 0
    · rwa [if_pos hresult] at h ⊢
    rw [if_neg hresult] at h ⊢
    obtain ⟨rest, hrest, heq⟩ := Option.map_eq_some_iff.mp h
    rw [ih (Nat.le_of_succ_le_succ hle) hrest, ← heq]
    rfl

/-- The fuel does not matter as long as it is enough. -/
theorem tarExtractAll_unique {σ : Type*} {tar : Memory} {tarSize : UInt64}
    {callback : Option (Call → σ → ℤ × σ)} {fuel fuel' : ℕ} {s : σ} {r r' : ℤ × List Event × σ}
    (h : tarExtractAll tar tarSize callback fuel s = some r)
    (h' : tarExtractAll tar tarSize callback fuel' s = some r') : r = r' := by
  unfold tarExtractAll at h h'
  split at h
  · rename_i hblock
    rw [if_pos hblock] at h'
    exact Option.some.inj (h.symm.trans h')
  · rename_i hblock
    rw [if_neg hblock] at h'
    have hmax := tarLoop_mono (le_max_left fuel fuel') h
    rw [tarLoop_mono (le_max_right fuel fuel') h'] at hmax
    exact (Option.some.inj hmax).symm

/-! ## What the callbacks are told -/

/-- The call tells the callback the path and the bytes of the member. -/
def CallFor (tar : Memory) (m : Member) (c : Call) : Prop :=
  CStr tar c.filename m.path ∧ c.size.toNat = m.kind.content.length ∧
    match m.kind with
    | .file _ content => ∃ d, c.data = some d ∧ Holds tar d content
    | .dir => c.data = none

theorem Member.Valid.callFor_iff {m : Member} (h : m.Valid) {tar : Memory} {hdr : UInt64}
    (hholds : Holds tar hdr (m.header ++ m.kind.content)) :
    CallFor tar m (m.call hdr) ↔ m.pathPrefix = [] ∧ m.name.length < 100 := by
  rw [holds_append, h.length_header] at hholds
  have hseen := Member.cStr_seen (h.holds_header hholds.1).1
  have hname : (m.call hdr).filename = hdr := by
    unfold Member.call
    cases m.kind <;> rfl
  have hpath : CStr tar hdr m.path ↔ m.pathPrefix = [] ∧ m.name.length < 100 := by
    rw [← h.seen_eq_path_iff]
    constructor
    · exact fun hstr => hseen.unique hstr
    · exact fun heq => heq ▸ hseen
  have hlt := h.content_length
  rw [CallFor, hname, hpath]
  apply and_iff_left
  unfold Member.call
  cases hkind : m.kind with
  | file flag0 content =>
    rw [hkind, Kind.content] at hholds hlt
    refine ⟨?_, hdr + 512, rfl, hholds.2⟩
    exact (UInt64.toNat_ofNat').trans (Nat.mod_eq_of_lt (hlt.trans (by norm_num)))
  | dir => exact ⟨rfl, rfl⟩

theorem forall₂_memberCalls {tar : Memory} (ms : List Member) (hvalid : ∀ m ∈ ms, m.Valid)
    {hdr : UInt64} (hholds : Holds tar hdr (ms.flatMap Member.encode)) :
    List.Forall₂ (CallFor tar) ms (memberCalls hdr ms) ↔
      ∀ m ∈ ms, m.pathPrefix = [] ∧ m.name.length < 100 := by
  induction ms generalizing hdr with
  | nil => simp [memberCalls]
  | cons m ms ih =>
    obtain ⟨hm, hms⟩ := List.forall_mem_cons.mp hvalid
    rw [List.flatMap_cons, holds_append] at hholds
    have hfirst := hholds.1
    rw [Member.encode, holds_append] at hfirst
    rw [memberCalls, List.forall₂_cons, hm.callFor_iff hfirst.1, ih hms hholds.2,
      List.forall_mem_cons]

/-- The archive of the members as `tar_data`. -/
def archive (ms : List Member) (trailer : List UInt8) : Memory := ofBytes (encode ms trailer)

/-- Where the zero block of the archive ends. -/
def zeroBlockEnd (ms : List Member) : UInt64 :=
  UInt64.ofNat ((ms.flatMap Member.encode).length + 512)

/-- With callbacks that return 0, `tar_extract_all` returns 0.  It makes one call for each member
in turn and looks at nothing behind the zero block. -/
def Extracts (ms : List Member) (trailer : List UInt8) : Prop :=
  ∀ (σ : Type) (f : Call → σ → ℤ × σ), (∀ c s, (f c s).1 = 0) → ∀ s, ∃ fuel log s',
    tarExtractAll (archive ms trailer) (UInt64.ofNat (encode ms trailer).length) (some f) fuel s =
      some (0, log, s') ∧
    List.Forall₂ (CallFor (archive ms trailer)) ms (callsOf log) ∧
    ∀ e ∈ log, e.Inside (zeroBlockEnd ms)

/-- The calls are those for the headers of the members. -/
theorem tarExtractAll_encode {σ : Type} {f : Call → σ → ℤ × σ} (hf : ∀ c s, (f c s).1 = 0)
    {ms : List Member} {trailer : List UInt8} (hvalid : ∀ m ∈ ms, m.Valid)
    (hlen : (encode ms trailer).length < 2 ^ 63) (s : σ) {fuel : ℕ} (hfuel : ms.length < fuel) :
    ∃ log, tarExtractAll (archive ms trailer) (UInt64.ofNat (encode ms trailer).length) (some f)
        fuel s = some (0, log, (memberCalls 0 ms).foldl (fun s c => (f c s).2) s) ∧
      callsOf log = memberCalls 0 ms ∧ ∀ e ∈ log, e.Inside (zeroBlockEnd ms) := by
  have hsize : (UInt64.ofNat (encode ms trailer).length).toNat = (encode ms trailer).length := by
    rw [UInt64.toNat_ofNat', Nat.mod_eq_of_lt (hlen.trans (by norm_num))]
  have hsplit : (encode ms trailer).length =
      (ms.flatMap Member.encode).length + 512 + trailer.length := by
    rw [encode, List.length_append, List.length_append, List.length_replicate]
  have hstop : (zeroBlockEnd ms).toNat = (ms.flatMap Member.encode).length + 512 := by
    unfold zeroBlockEnd
    have hle := Nat.le_add_right ((ms.flatMap Member.encode).length + 512) trailer.length
    rw [← hsplit] at hle
    rw [UInt64.toNat_ofNat', Nat.mod_eq_of_lt ((hle.trans_lt hlen).trans (by norm_num))]
  have hholds := holds_ofBytes (hlen.le.trans (show 2 ^ 63 ≤ 2 ^ 64 by norm_num))
  rw [encode, holds_append] at hholds
  have hblock : ¬ UInt64.ofNat (encode ms trailer).length < 512 := by
    have h512 : (512 : UInt64).toNat = 512 := rfl
    rw [UInt64.not_lt, UInt64.le_iff_toNat_le, hsize, h512, hsplit]
    linarith only [Nat.zero_le (ms.flatMap Member.encode).length, Nat.zero_le trailer.length]
  rw [tarExtractAll, if_neg hblock]
  apply tarLoop_encode (by rwa [hsize]) _ hf ms hvalid fuel hfuel 0 s hholds.1
  · rw [UInt64.toNat_zero, Nat.zero_add, hstop]
  · rw [hsize, hstop, hsplit]
    exact Nat.le_add_right _ _

theorem Extracts.memberCalls {ms : List Member} {trailer : List UInt8}
    (h : Extracts ms trailer) (hvalid : ∀ m ∈ ms, m.Valid)
    (hlen : (encode ms trailer).length < 2 ^ 63) :
    List.Forall₂ (CallFor (archive ms trailer)) ms (memberCalls 0 ms) := by
  obtain ⟨fuel, log, s', heq, hfor, -⟩ := h Unit (fun _ s => (0, s)) (fun _ _ => rfl) ()
  obtain ⟨log', heq', hlog, -⟩ := tarExtractAll_encode (f := fun _ s => (0, s))
    (fun _ _ => rfl) hvalid hlen () (Nat.lt_succ_self ms.length)
  have hsame : log = log' := congrArg (fun r => r.2.1) (tarExtractAll_unique heq heq')
  rw [hsame, hlog] at hfor
  exact hfor

theorem holds_archive {ms : List Member} {trailer : List UInt8}
    (hlen : (encode ms trailer).length < 2 ^ 63) :
    Holds (archive ms trailer) 0 (ms.flatMap Member.encode) := by
  have hholds := holds_ofBytes (hlen.le.trans (show 2 ^ 63 ≤ 2 ^ 64 by norm_num))
  rw [encode, holds_append, holds_append] at hholds
  exact hholds.1.1

/-- The archive is extracted exactly when every path is stored in the name field with room for a
NUL. -/
theorem extracts_iff {ms : List Member} {trailer : List UInt8} (hvalid : ∀ m ∈ ms, m.Valid)
    (hlen : (encode ms trailer).length < 2 ^ 63) :
    Extracts ms trailer ↔ ∀ m ∈ ms, m.pathPrefix = [] ∧ m.name.length < 100 := by
  have hholds : Holds (archive ms trailer) 0 (ms.flatMap Member.encode) := holds_archive hlen
  have hcalls := forall₂_memberCalls ms hvalid hholds
  constructor
  · exact fun h => hcalls.mp (h.memberCalls hvalid hlen)
  · intro hcond σ f hf s
    obtain ⟨log, heq, hlog, hinside⟩ :=
      tarExtractAll_encode hf hvalid hlen s (Nat.lt_succ_self ms.length)
    refine ⟨_, log, _, heq, ?_, hinside⟩
    rw [hlog]
    exact hcalls.mpr hcond

/-! ## A directory with a file, and a prefix -/

/-- A member as it is usually written, with its checksum. -/
def plain (pathPrefix name : List UInt8) (kind : Kind) (chksum : List UInt8) : Member where
  pathPrefix := pathPrefix
  name := name
  kind := kind
  mode := List.replicate 7 0x30 ++ 0 :: List.replicate 7 0x30 ++ 0 :: List.replicate 7 0x30 ++ [0]
  sizeEnd := 0
  times := List.replicate 11 0x30 ++ 0 :: chksum ++ [0, 0x20]
  owner := [0x30, 0x30] ++ List.replicate 64 0 ++ List.replicate 7 0x30 ++ 0 ::
    List.replicate 7 0x30 ++ [0]

theorem plain_valid {pathPrefix name : List UInt8} {kind : Kind} {chksum : List UInt8}
    (hname : name ≠ [] ∧ name.length ≤ 100 ∧ 0 ∉ name)
    (hpathPrefix : pathPrefix.length ≤ 155 ∧ 0 ∉ pathPrefix) (hcontent : kind.content.length < 8 ^ 11)
    (hchksum : chksum.length = 6 ∧ ∀ b ∈ chksum, 0x30 ≤ b ∧ b ≤ 0x37) :
    (plain pathPrefix name kind chksum).Valid where
  name_pos := hname.1
  name_length := hname.2.1
  name_zero := hname.2.2
  prefix_length := hpathPrefix.1
  prefix_zero := hpathPrefix.2
  content_length := hcontent
  mode_length := by simp [plain]
  mode_first := ⟨0x30, _, rfl, by decide, by decide⟩
  times_length := by simp [plain, hchksum.1]
  owner_length := by simp [plain]
  numeric := by
    intro b hb
    have hcases : b ∈ chksum ∨ b = 0x30 ∨ b = 0 ∨ b = 0x20 := by
      simp only [plain, List.mem_append, List.mem_cons, List.mem_replicate, List.not_mem_nil] at hb
      tauto
    rcases hcases with hb | rfl | rfl | rfl
    · exact Or.inl (hchksum.2 b hb)
    · exact Or.inl ⟨by decide, by decide⟩
    · exact Or.inr (Or.inr rfl)
    · exact Or.inr (Or.inl rfl)

/-- `d/`, a directory. -/
def directoryMember : Member := plain [] [0x64, 0x2F] .dir [0x30, 0x30, 0x37, 0x34, 0x30, 0x37]

/-- `d/a`, with two bytes. -/
def fileMember : Member :=
  plain [] [0x64, 0x2F, 0x61] (.file true [0x68, 0x69]) [0x30, 0x30, 0x37, 0x35, 0x34, 0x35]

/-- `p/a`, empty, with `p` in the prefix field. -/
def prefixedMember : Member :=
  plain [0x70] [0x61] (.file true []) [0x30, 0x30, 0x37, 0x35, 0x30, 0x30]

theorem directoryMember_valid : directoryMember.Valid :=
  plain_valid (by decide) (by decide) (by norm_num [Kind.content]) (by simp)

theorem fileMember_valid : fileMember.Valid :=
  plain_valid (by decide) (by decide) (by norm_num [Kind.content]) (by simp)

theorem prefixedMember_valid : prefixedMember.Valid :=
  plain_valid (by decide) (by decide) (by norm_num [Kind.content]) (by simp)

theorem length_encode_archive {ms : List Member} (hvalid : ∀ m ∈ ms, m.Valid)
    (hsmall : ∀ m ∈ ms, m.kind.content.length ≤ 512) (hfew : ms.length ≤ 512) :
    (encode ms []).length < 2 ^ 63 := by
  have hflat : (ms.flatMap Member.encode).length ≤ 1024 * ms.length := by
    clear hfew
    induction ms with
    | nil => exact le_rfl
    | cons m ms ih =>
      obtain ⟨hm, hms⟩ := List.forall_mem_cons.mp hvalid
      obtain ⟨hfirst, hrest⟩ := List.forall_mem_cons.mp hsmall
      have hrec := ih hms hrest
      rw [List.flatMap_cons, List.length_append, hm.length_encode, List.length_cons]
      omega
  have hle : (encode ms []).length ≤ 1024 * ms.length + 512 := by
    rw [encode, List.length_append, List.length_append, List.length_replicate, List.length_nil]
    omega
  have hbound : 1024 * ms.length + 512 ≤ 1024 * 512 + 512 := by omega
  exact (hle.trans hbound).trans_lt (by norm_num)

theorem extracts_directory : Extracts [directoryMember, fileMember] [] := by
  have hvalid : ∀ m ∈ [directoryMember, fileMember], m.Valid := by
    simp [directoryMember_valid, fileMember_valid]
  apply (extracts_iff hvalid (length_encode_archive hvalid _ (by decide))).mpr
  · simp [directoryMember, fileMember, plain]
  · simp [directoryMember, fileMember, plain, Kind.content]

/-- The callback is told `a` instead of `p/a`. -/
theorem prefix_ignored : prefixedMember.Valid ∧ ¬ Extracts [prefixedMember] [] := by
  have hvalid : ∀ m ∈ [prefixedMember], m.Valid := by
    simp [prefixedMember_valid]
  have hlen : (encode [prefixedMember] []).length < 2 ^ 63 := by
    apply length_encode_archive hvalid _ (by decide)
    simp [prefixedMember, plain, Kind.content]
  refine ⟨prefixedMember_valid, fun h => ?_⟩
  have hcalls := (forall₂_memberCalls _ hvalid (holds_archive hlen)).mp (h.memberCalls hvalid hlen)
  have hpathPrefix := (hcalls prefixedMember List.mem_cons_self).1
  cases hpathPrefix

end Rhoudveine.Tar
