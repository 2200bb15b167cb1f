import Rhoudveine.Fat32.Volume

/-!
# FAT32 directories

Directory records, their names, and the scans `fat32_finddir` and `fat32_readdir`.  A record
is the sequence of its 32 bytes.
-/

namespace Rhoudveine.Fat32
open Fs Mm LittleEndian

/-! ## Characters and strings -/

/-- The value of a plain `char`, which is signed. -/
def charValue (c : UInt8) : ℤ := c.toInt8.toInt

def toUpper (c : UInt8) : UInt8 := if 0x61 ≤ c ∧ c ≤ 0x7A then c - 32 else c

def toLower (c : UInt8) : UInt8 := if 0x41 ≤ c ∧ c ≤ 0x5A then c + 32 else c

def space : UInt8 := 0x20

def dot : UInt8 := 0x2E

/-- The string in a buffer of `n` characters. -/
def cString (buf : ℕ → UInt8) (n : ℕ) : Str := ((List.range n).map buf).takeWhile (· ≠ 0)

def myStrcasecmp : Str → Str → ℤ
  | c1 :: s1, c2 :: s2 =>
    if toUpper c1 ≠ toUpper c2 then charValue (toUpper c1) - charValue (toUpper c2)
    else myStrcasecmp s1 s2
  | [], [] => 0
  | c :: _, [] => charValue c
  | [], c :: _ => -charValue c

/-! ## Records -/

abbrev Record := ℕ → UInt8

/-- Entry `i` of a cluster buffer. -/
def recordAt (buf : ℕ → UInt8) (i : ℕ) : Record := fun k => buf (32 * i + k)

def attrVolumeId : UInt8 := 0x08
def attrDirectory : UInt8 := 0x10
def attrArchive : UInt8 := 0x20
def attrLfn : UInt8 := 0x0F

namespace Record

def attr (r : Record) : UInt8 := r 11

def firstCluster (r : Record) : UInt32 :=
  UInt32.ofNat (le r 20 2) <<< 16 ||| UInt32.ofNat (le r 26 2)

def fileSize (r : Record) : UInt32 := UInt32.ofNat (le r 28 4)

/-- The checksum of the short name. -/
def checksum (r : Record) : UInt8 :=
  (List.range 11).foldl (fun sum k => ((sum &&& 1) <<< 7 ||| (sum &&& 0xFE) >>> 1) + r k) 0

end Record

/-- At most `len` characters from `start` on, up to a space, in lower case. -/
def namePart (r : Record) (start len : ℕ) : Str :=
  (((List.range len).map fun i => r (start + i)).takeWhile (· ≠ space)).map toLower

def fat32ToNormalName (r : Record) : Str :=
  (namePart r 0 8 ++ if r 8 ≠ space then dot :: namePart r 8 3 else []).takeWhile (· ≠ 0)

/-! ## Long names -/

/-- `lfn_buf` and the local `lfn_checksum`. -/
structure Lfn where
  buf : ℕ → UInt8
  checksum : ℤ

namespace Lfn

def clear : Lfn := ⟨fun _ => 0, -1⟩

/-- The byte of a long-name record where its character `k` starts. -/
def charIndex (k : ℕ) : ℕ :=
  if k < 5 then 1 + 2 * k else if k < 11 then 14 + 2 * (k - 5) else 28 + 2 * (k - 11)

/-- Character `k`; one outside ASCII becomes a question mark. -/
def char (r : Record) (k : ℕ) : UInt8 :=
  if r (charIndex k) < 0x80 ∧ r (charIndex k + 1) = 0 then r (charIndex k) else 0x3F

/-- The effect of a long-name record. -/
def add (lfn : Lfn) (r : Record) : Lfn :=
  let lfn := if r 0 &&& 0x40 ≠ 0 then ⟨fun _ => 0, (r 13).toNat⟩ else lfn
  let idx : ℤ := ((r 0 &&& 0x3F).toNat - 1) * 13
  if 0 ≤ idx ∧ idx < 242 then
    { lfn with
      buf := fun i => if idx.toNat ≤ i ∧ i < idx.toNat + 13 then char r (i - idx.toNat)
        else lfn.buf i }
  else lfn

/-- The long name belongs to the record. -/
def Valid (lfn : Lfn) (r : Record) : Prop := lfn.buf 0 ≠ 0 ∧ (r.checksum.toNat : ℤ) = lfn.checksum

instance (lfn : Lfn) (r : Record) : Decidable (lfn.Valid r) := inferInstanceAs (Decidable (_ ∧ _))

def name (lfn : Lfn) : Str := cString lfn.buf 256

end Lfn

/-! ## Scanning a directory -/

inductive Scan
  | stop
  | hit (r : Record) (lfn : Lfn)
  | next (seen : UInt32) (lfn : Lfn)

/-- The loop over the entries of a cluster, common to the two scans: `accept` decides about an
entry from the number of files before it and the long name in front of it. -/
def scanEntries (accept : UInt32 → Lfn → Record → Bool) (buf : ℕ → UInt8) :
    (rounds i : ℕ) → (seen : UInt32) → Lfn → Scan
  | 0, _, seen, lfn => .next seen lfn
  | rounds + 1, i, seen, lfn =>
    let entry := recordAt buf i
    if charValue (entry 0) = 0x00 then .stop
    else if charValue (entry 0) = 0xE5 then scanEntries accept buf rounds (i + 1) seen .clear
    else if entry.attr &&& attrLfn = attrLfn then
      scanEntries accept buf rounds (i + 1) seen (lfn.add entry)
    else if entry.attr &&& attrVolumeId ≠ 0 then
      scanEntries accept buf rounds (i + 1) seen { lfn with checksum := -1 }
    else if accept seen lfn entry then .hit entry lfn
    else scanEntries accept buf rounds (i + 1) (seen + 1) .clear

variable (dev : Device)

/-- The loop over the clusters; the entries it looks at lie in what it has just read.  `none`
if it takes more than `fuel` rounds. -/
def scanChain (accept : UInt32 → Lfn → Record → Bool) (page : UInt64) :
    (fuel : ℕ) → (cluster : UInt32) → (buf : ℕ → UInt8) → (seen : UInt32) → Lfn → Volume →
    Option (Option (Record × Lfn) × Volume)
  | 0, _, _, _, _, _ => none
  | fuel + 1, cluster, buf, seen, lfn, st =>
    if cluster ≥ endOfChain then some (none, st)
    else
      match fat32ReadCluster dev st cluster page buf with
      | (false, _, st) => some (none, st)
      | (true, buf, st) =>
        match scanEntries accept buf st.fs.bs.entriesPerCluster.toNat 0 seen lfn with
        | .stop => some (none, st)
        | .hit r lfn => some (some (r, lfn), st)
        | .next seen lfn =>
          match fat32GetFatEntry st cluster with
          | (cluster, st) => scanChain accept page fuel cluster buf seen lfn st

/-! ## Nodes -/

/-- `struct fat32_node_data` without `fs`, which is the volume's own. -/
structure NodeData where
  firstCluster : UInt32
  parentCluster : UInt32
  deriving DecidableEq, Repr

/-- A `struct vfs_node` of the driver, with the addresses of its page and of the page of its
`fs_data`; `data` is `none` where `fs_data` is null. -/
structure Node where
  page : UInt64
  name : Str
  size : UInt32
  flags : UInt32
  dataPage : UInt64
  data : Option NodeData
  deriving DecidableEq, Repr

/-- The node for a record of the directory `dir`; `none` for a null pointer. -/
def makeNode (st : Volume) (dir : NodeData) (r : Record) (lfn : Lfn) : Option Node × Volume :=
  match st.alloc with
  | (page, st) =>
    match st.alloc with
    | (dataPage, st) =>
      let node : Node :=
        { page := page
          name := if lfn.Valid r then lfn.name.take 127 else fat32ToNormalName r
          size := r.fileSize
          flags := if r.attr &&& attrDirectory ≠ 0 then vfsDirectory else vfsFile
          dataPage := dataPage
          data := if dataPage = 0 then none else some ⟨r.firstCluster, dir.firstCluster⟩ }
      (if page = 0 then none else some node, st)

/-- The common body of `fat32_finddir` and `fat32_readdir`. -/
def fat32Scan (accept : UInt32 → Lfn → Record → Bool) (fuel : ℕ) (st : Volume) (node : Node) :
    Option (Option Node × Volume) :=
  match node.data with
  | none => some (none, st)
  | some dir =>
    match st.alloc with
    | (page, st) =>
      if page = 0 then some (none, st)
      else
        match scanChain dev accept page fuel dir.firstCluster (dev.leftover page) 0 .clear st with
        | none => none
        | some (none, st) => some (none, st.free page)
        | some (some (r, lfn), st) =>
          match makeNode st dir r lfn with
          | (child, st) => some (child, st.free page)

/-- The test of `fat32_finddir`: the long name, or else the short one. -/
def nameMatches (name : Str) (lfn : Lfn) (r : Record) : Bool :=
  (lfn.Valid r && myStrcasecmp name lfn.name = 0) || myStrcasecmp name (fat32ToNormalName r) = 0

def fat32Finddir (fuel : ℕ) (st : Volume) (node : Node) (name : Str) :
    Option (Option Node × Volume) :=
  fat32Scan dev (fun _ => nameMatches name) fuel st node

def fat32Readdir (fuel : ℕ) (st : Volume) (node : Node) (index : UInt32) :
    Option (Option Node × Volume) :=
  fat32Scan dev (fun seen _ _ => seen = index) fuel st node

end Rhoudveine.Fat32
