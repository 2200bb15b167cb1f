import Rhoudveine.Fat32.Directory
import Rhoudveine.Lib.Search

/-!
# Creating FAT32 entries

Short names, long-name records, and `fat32_create`.
-/

namespace Rhoudveine.Fat32
open Fs Mm LittleEndian Search

/-! ## Names on the disk -/

/-- `s` padded with spaces to `n` characters. -/
def padded (n : ℕ) (s : Str) : Str := s ++ List.replicate (n - s.length) space

/-- The name up to its first dot. -/
def stem (name : Str) : Str := name.takeWhile (· ≠ dot)

/-- What follows the first dot. -/
def extension (name : Str) : Str := (name.dropWhile (· ≠ dot)).drop 1

def fat32ToFatName (normal : Str) : Str :=
  padded 8 (((stem normal).take 8).map toUpper) ++ padded 3 (((extension normal).take 3).map toUpper)

/-- What follows the last dot, if there is one. -/
def lastExtension : Str → Option Str
  | [] => none
  | c :: s =>
    match lastExtension s with
    | some e => some e
    | none => if c = dot then some s else none

def makeShortName (longName : Str) : Str :=
  padded 6 ((((stem longName).map toUpper).filter (· ≠ space)).take 6) ++ [0x7E, 0x31] ++
    padded 3 ((((lastExtension longName).getD []).take 3).map toUpper)

/-- `is_lfn`. -/
def isLfn (name : Str) : Bool :=
  name.length > 8 || name.zipIdx.any fun p => (p.1 = dot && p.2 > 8) || (0x61 ≤ p.1 && p.1 ≤ 0x7A)

/-- `lfn_entries`. -/
def lfnEntries (name : Str) : ℕ := if isLfn name then (name.length + 12) / 13 else 0

def shortName (name : Str) : Str := if isLfn name then makeShortName name else fat32ToFatName name

/-! ## Records -/

/-- A cleared record with a short name, an attribute and a first cluster. -/
def shortRecord (name : Str) (attr : UInt8) (firstCluster : UInt32) : Record := fun k =>
  if k < 11 then name.getD k 0
  else if k = 11 then attr
  else if 20 ≤ k ∧ k < 22 then leByte firstCluster.toNat (k - 18)
  else if 26 ≤ k ∧ k < 28 then leByte firstCluster.toNat (k - 26)
  else 0

/-- Character `k` of a part of `len` characters as a 16-bit value, in two bytes.  A plain `char`
is extended with its sign. -/
def lfnCode (part : Str) (k : ℕ) : UInt8 × UInt8 :=
  if k < part.length then (part.getD k 0, if part.getD k 0 < 0x80 then 0 else 0xFF)
  else if k = part.length then (0, 0)
  else (0xFF, 0xFF)

/-- Long-name record number `i` of `total`. -/
def lfnRecord (name : Str) (chksum : UInt8) (i total : ℕ) : Record := fun b =>
  let part := (name.drop ((i - 1) * 13)).take 13
  if b = 0 then UInt8.ofNat i ||| if i = total then 0x40 else 0
  else if b = 11 then attrLfn
  else if b = 13 then chksum
  else
    match (List.range 13).find? fun k => Lfn.charIndex k = b ∨ Lfn.charIndex k + 1 = b with
    | none => 0
    | some k => if Lfn.charIndex k = b then (lfnCode part k).1 else (lfnCode part k).2

/-- A cluster buffer after entry `i` is replaced. -/
def setRecord (buf : ℕ → UInt8) (i : ℕ) (r : Record) : ℕ → UInt8 := fun a =>
  if 32 * i ≤ a ∧ a < 32 * i + 32 then r (a - 32 * i) else buf a

/-- The records of a new entry, in order: its long name from the last part on, then the short
name. -/
def entryRecords (name : Str) (attr : UInt8) (firstCluster : UInt32) : List Record :=
  let chksum := (shortRecord (shortName name) attr firstCluster).checksum
  ((List.range (lfnEntries name)).map fun j =>
      lfnRecord name chksum (lfnEntries name - j) (lfnEntries name)) ++
    [shortRecord (shortName name) attr firstCluster]

/-- Write records to a cluster buffer from entry `i` on. -/
def writeRecords (page : UInt64) : List Record → (i : ℕ) → (buf : ℕ → UInt8) → Volume →
    (ℕ → UInt8) × Volume
  | [], _, buf, st => (buf, st)
  | r :: rs, i, buf, st => writeRecords page rs (i + 1) (setRecord buf i r) (st.touch page (32 * i) 32)

/-! ## Finding room -/

/-- The test for a free entry. -/
def freeSlot (buf : ℕ → UInt8) (i : ℕ) : Bool :=
  charValue (recordAt buf i 0) = 0x00 || charValue (recordAt buf i 0) = 0xE5

/-- The inner loop of the search, from entry `j` on with `n` free entries so far. -/
def freeRun (buf : ℕ → UInt8) (needed : ℕ) : (rounds j n : ℕ) → Bool
  | 0, _, _ => false
  | rounds + 1, j, n =>
    if freeSlot buf j then
      if n + 1 = needed then true else freeRun buf needed rounds (j + 1) (n + 1)
    else false

/-- The first of `needed` consecutive free entries in a cluster. -/
def findSlots (buf : ℕ → UInt8) (entries needed : ℕ) : Option ℕ :=
  firstSome (fun i => if freeSlot buf i && freeRun buf needed (entries - i) i 0 then some i else none)
    entries 0

variable (dev : Device)

/-- The walk over the clusters of the directory: the cluster and the entry to write to, and the
buffer; the second `none` is one of the error returns. -/
def findTarget (page : UInt64) (needed : ℕ) : (fuel : ℕ) → (cluster : UInt32) →
    (buf : ℕ → UInt8) → Volume → Option (Option (UInt32 × ℕ × (ℕ → UInt8)) × Volume)
  | 0, _, _, _ => none
  | fuel + 1, cluster, buf, st =>
    if cluster ≥ endOfChain then some (none, st)
    else
      match fat32ReadCluster dev st cluster page buf with
      | (false, _, st) => some (none, st)
      | (true, buf, st) =>
        match findSlots buf st.fs.bs.entriesPerCluster.toNat needed with
        | some i => some (some (cluster, i, buf), st)
        | none =>
          match fat32GetFatEntry st cluster with
          | (next, st) =>
            if next ≥ endOfChain then
              match fat32ExtendChain dev st cluster with
              | (new, st) =>
                if new = 0 then some (none, st)
                else
                  let buf := fun i => if i < 4096 then 0 else buf i
                  match fat32WriteCluster dev (st.touch page 0 4096) new page buf with
                  | (_, st) => some (some (new, 0, buf), st)
            else findTarget page needed fuel next buf st

/-! ## Entries -/

/-- The part of `fat32_create_entry` that makes a new directory: its first cluster, 0 on
failure. -/
def makeDirectory (st : Volume) (dir : NodeData) : UInt32 × Volume :=
  match fat32AllocCluster dev st with
  | (first, st) =>
    if first = 0 then (0, st)
    else
      match st.alloc with
      | (page, st) =>
        let parent := if dir.firstCluster = st.fs.rootDirCluster then 0 else dir.firstCluster
        let buf := fun i => if i < 4096 then 0 else dev.leftover page i
        let buf := setRecord buf 0 (shortRecord (padded 11 [dot]) attrDirectory first)
        let buf := setRecord buf 1 (shortRecord (padded 11 [dot, dot]) attrDirectory parent)
        match fat32WriteCluster dev (st.touch page 0 4096) first page buf with
        | (_, st) => (first, st.free page)

/-- The part of `fat32_create_entry` after the place is found. -/
def fillEntry (st : Volume) (dir : NodeData) (name : Str) (attr : UInt8) (page : UInt64)
    (target : UInt32) (start : ℕ) (buf : ℕ → UInt8) : ℤ × Volume :=
  match if attr &&& attrDirectory ≠ 0 then makeDirectory dev st dir else (0, st) with
  | (first, st) =>
    if attr &&& attrDirectory ≠ 0 ∧ first = 0 then (-1, st.free page)
    else
      match fat32ReadCluster dev st target page buf with
      | (_, buf, st) =>
        match writeRecords page (entryRecords name attr first) start buf st with
        | (buf, st) =>
          match fat32WriteCluster dev st target page buf with
          | (_, st) => (0, st.free page)

def fat32CreateEntry (fuel : ℕ) (st : Volume) (parent : Node) (name : Str) (attr : UInt8) :
    Option (ℤ × Volume) :=
  match parent.data with
  | none => some (-1, st)
  | some dir =>
    match st.alloc with
    | (page, st) =>
      if page = 0 then some (-1, st)
      else
        match findTarget dev page (1 + lfnEntries name) fuel dir.firstCluster (dev.leftover page)
          st with
        | none => none
        | some (none, st) => some (-1, st.free page)
        | some (some (target, start, buf), st) =>
          some (fillEntry dev st dir name attr page target start buf)

/-- `existing` is freed again. -/
def freeNode (st : Volume) (node : Node) : Volume :=
  (if node.dataPage ≠ 0 then st.free node.dataPage else st).free node.page

def fat32Create (fuel : ℕ) (st : Volume) (parent : Node) (name : Str) (flags : UInt32) :
    Option (ℤ × Volume) :=
  if parent.flags &&& vfsDirectory = 0 then some (-1, st)
  else
    match fat32Finddir dev fuel st parent name with
    | none => none
    | some (some existing, st) => some (-1, freeNode st existing)
    | some (none, st) =>
      let attr := if flags &&& vfsDirectory ≠ 0 then attrDirectory else attrArchive
      fat32CreateEntry dev fuel st parent name attr

def fat32MkdirOp (fuel : ℕ) (st : Volume) (parent : Node) (name : Str) : Option (ℤ × Volume) :=
  fat32Create dev fuel st parent name vfsDirectory

end Rhoudveine.Fat32
