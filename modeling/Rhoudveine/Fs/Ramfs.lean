import Rhoudveine.Fs.State
import Rhoudveine.Lib.Paged
import Rhoudveine.Lib.Search

/-!
# ramfs

The functions of `ramfs.c`.  `answers` is what the calls of `pfa_alloc_low`
return, in order, 0 for a failure.  A result `none` is a crash: an access beyond
the 128 page pointers of a file or through a null pointer.
-/

namespace Rhoudveine.Fs
open Search

variable (answers : ℕ → UInt64)

/-- The next node of the pool becomes `node`, with a cleared directory block. -/
def addNode (s : Vfs) (node : Node) : Vfs :=
  { (s.setNode s.ramfsNodeCount node).setDir s.ramfsNodeCount ⟨fun _ => [], fun _ => none⟩ with
    ramfsNodeCount := s.ramfsNodeCount + 1 }

/-- `ramfs_alloc_node`: the index of a cleared node with the given name and flags. -/
def ramfsAllocNode (s : Vfs) (name : Str) (flags : UInt32) : Option ℕ × Vfs :=
  if s.ramfsNodeCount ≥ maxRamfsNodes then (none, s)
  else
    let index := s.ramfsNodeCount
    let node : Node :=
      { Node.zero with
        name := name.take 255
        flags := flags
        size := 0
        fsData := if flags &&& vfsDirectory ≠ 0 then .dir index else .null }
    (some index, addNode s node)

/-! ## Reading and writing files -/

/-- The last page a write needs, in the source's mixed arithmetic. -/
def endPage (offset : UInt64) (size : UInt32) : UInt32 :=
  ((offset + size.toUInt64 - 1) / 4096).toUInt32

/-- `page_idx` of the copying loops. -/
def pageIdx (offset : UInt64) : UInt32 := (offset / 4096).toUInt32

def pageOffset (offset : UInt64) : UInt32 := (offset % 4096).toUInt32

/-- `bytes_to_write` and `bytes_to_read`. -/
def chunk (offset : UInt64) (remaining : UInt32) : UInt32 :=
  if 4096 - pageOffset offset < remaining then 4096 - pageOffset offset else remaining

/-- The allocation loop from `page_idx` on; `false` for the return on a failed
allocation.  128 rounds are enough for its own bound. -/
def allocPages (endPage : UInt32) : (rounds : ℕ) → (pageIdx : UInt32) → FileData → (allocs : ℕ) →
    Bool × FileData × ℕ
  | 0, _, file, allocs => (true, file, allocs)
  | rounds + 1, pageIdx, file, allocs =>
    if pageIdx ≤ endPage ∧ pageIdx < 128 then
      let pageAddr := answers allocs
      if pageAddr = 0 then (false, file, allocs + 1)
      else
        allocPages endPage rounds (pageIdx + 1)
          { file with pages := Function.update file.pages pageIdx.toNat (some pageAddr) }
          (allocs + 1)
    else (true, file, allocs)

/-- The copying loop of `ramfs_write`; every round writes at least one byte, so `size`
rounds are enough. -/
def writeLoop (file : FileData) (data : ℕ → UInt8) : (rounds : ℕ) →
    (written remaining : UInt32) → (currentOffset : UInt64) → (UInt64 → ℕ → UInt8) →
    Option (UInt32 × (UInt64 → ℕ → UInt8))
  | 0, written, _, _, frames => some (written, frames)
  | rounds + 1, written, remaining, currentOffset, frames =>
    if remaining = 0 then some (written, frames)
    else
      let page := pageIdx currentOffset
      let bytesToWrite := chunk currentOffset remaining
      if page ≥ file.numPages then some (written, frames)
      else if page.toNat ≥ maxFilePages then none
      else
        match file.pages page.toNat with
        | none => some (written, frames)
        | some frame =>
          writeLoop file data rounds (written + bytesToWrite) (remaining - bytesToWrite)
            (currentOffset + bytesToWrite.toUInt64)
            (Paged.copyIn frames frame (pageOffset currentOffset).toNat bytesToWrite.toNat
              fun i => data (written.toNat + i))

/-- The file data a write works on, allocated on the first write; `none` when the pool
is exhausted. -/
def ensureFileData (s : Vfs) (node : ℕ) (fsData : FsData) : Option (ℕ × Vfs) :=
  match fsData with
  | .file k => some (k, s)
  | _ =>
    if s.fileDataCount ≥ maxRamfsFiles then none
    else
      let k := s.fileDataCount
      let file : FileData := { pages := fun _ => none, numPages := 0 }
      some (k, { (s.setFile k file).setNode node { s.ramfsNodePool node with fsData := .file k } with
        fileDataCount := k + 1 })

/-- The end of `ramfs_write`: the size becomes at least `last`. -/
def raiseSize (s : Vfs) (node : ℕ) (last : UInt64) : Vfs :=
  let n := s.ramfsNodePool node
  if last > n.size.toUInt64 then s.setNode node { n with size := last.toUInt32 } else s

/-- The part of `ramfs_write` after the page count is up to date: copy the bytes and
raise the size. -/
def storeBytes (s : Vfs) (node k : ℕ) (offset : UInt64) (size : UInt32) (data : ℕ → UInt8) :
    Option (ℤ × Vfs) :=
  match writeLoop (s.fileDataPool k) data size.toNat 0 size offset s.frames with
  | none => none
  | some (written, frames) =>
    some (written.toInt32.toInt,
      raiseSize { s with frames := frames } node (offset + written.toUInt64))

/-- The part of `ramfs_write` after the file data block `k` is there. -/
def writeFile (s : Vfs) (node k : ℕ) (offset : UInt64) (size : UInt32) (data : ℕ → UInt8) :
    Option (ℤ × Vfs) :=
  let file := s.fileDataPool k
  let last := endPage offset size
  match allocPages answers last maxFilePages file.numPages file s.allocs with
  | (false, file, allocs) => some (-1, { s.setFile k file with allocs := allocs })
  | (true, file, allocs) =>
    let file := if last ≥ file.numPages then { file with numPages := last + 1 } else file
    storeBytes { s.setFile k file with allocs := allocs } node k offset size data

def ramfsWrite (s : Vfs) (node : Option ℕ) (offset : UInt64) (size : UInt32)
    (data : ℕ → UInt8) : Option (ℤ × Vfs) :=
  match node with
  | none => some (-1, s)
  | some node =>
    if (s.ramfsNodePool node).isDir then some (-1, s)
    else
      match ensureFileData s node (s.ramfsNodePool node).fsData with
      | none => some (-1, s)
      | some (k, s) => writeFile answers s node k offset size data

/-- The copying loop of `ramfs_read`, with the bytes it puts into the buffer. -/
def readLoop (file : FileData) (fileSize : UInt32) (frames : UInt64 → ℕ → UInt8) :
    (rounds : ℕ) → (readCount remaining : UInt32) → (currentOffset : UInt64) → List UInt8 →
    Option (UInt32 × List UInt8)
  | 0, readCount, _, _, buffer => some (readCount, buffer)
  | rounds + 1, readCount, remaining, currentOffset, buffer =>
    if remaining > 0 ∧ currentOffset < fileSize.toUInt64 then
      let page := pageIdx currentOffset
      let bytesToRead := chunk currentOffset remaining
      if page ≥ file.numPages then some (readCount, buffer)
      else if page.toNat ≥ maxFilePages then none
      else
        match file.pages page.toNat with
        | none => some (readCount, buffer)
        | some frame =>
          readLoop file fileSize frames rounds (readCount + bytesToRead)
            (remaining - bytesToRead) (currentOffset + bytesToRead.toUInt64)
            (buffer ++ (List.range bytesToRead.toNat).map fun i =>
              frames frame ((pageOffset currentOffset).toNat + i))
    else some (readCount, buffer)

/-- The return value of `ramfs_read` and the bytes it stores from the start of the
buffer. -/
def ramfsRead (s : Vfs) (node : Option ℕ) (offset : UInt64) (size : UInt32) :
    Option (ℤ × List UInt8) :=
  match node with
  | none => some (-1, [])
  | some node =>
    let n := s.ramfsNodePool node
    if n.isDir then some (-1, [])
    else
      match n.fsData with
      | .file k =>
        if offset ≥ n.size.toUInt64 then some (0, [])
        else
          let size :=
            if offset + size.toUInt64 > n.size.toUInt64 then
              (n.size.toUInt64 - offset).toUInt32
            else size
          match readLoop (s.fileDataPool k) n.size s.frames size.toNat 0 size offset [] with
          | none => none
          | some (readCount, buffer) => some (readCount.toInt32.toInt, buffer)
      | _ => some (0, [])

/-! ## Directories -/

/-- The first occupied slot whose stored name equals `name`. -/
def ramfsFinddir (s : Vfs) (node : ℕ) (name : Str) : Option ℕ :=
  let n := s.ramfsNodePool node
  if ¬ n.isDir then none
  else
    match n.fsData with
    | .dir d =>
      let data := s.ramfsDataPool d
      firstSome
        (fun i => (data.children i).bind fun c => if name = data.childNames i then some c else none)
        ramfsMaxChildren 0
    | _ => none

/-- The occupied slot number `index`. -/
def ramfsReaddir (s : Vfs) (node : ℕ) (index : UInt32) : Option ℕ :=
  let n := s.ramfsNodePool node
  if ¬ n.isDir then none
  else
    match n.fsData with
    | .dir d => ((List.range ramfsMaxChildren).filterMap (s.ramfsDataPool d).children)[index.toNat]?
    | _ => none

def ramfsCreate (s : Vfs) (parent : ℕ) (name : Str) (flags : UInt32) : ℤ × Vfs :=
  let p := s.ramfsNodePool parent
  if ¬ p.isDir then (-1, s)
  else
    match p.fsData with
    | .dir d =>
      match firstSome (fun i => if (s.ramfsDataPool d).children i = none then some i else none)
        ramfsMaxChildren 0 with
      | none => (-1, s)
      | some slot =>
        match ramfsAllocNode s name flags with
        | (none, s) => (-1, s)
        | (some index, s) =>
          let s := s.setNode index { s.ramfsNodePool index with ops := some .ramfs }
          let data := s.ramfsDataPool d
          (0, s.setDir d
            { children := Function.update data.children slot (some index)
              childNames := Function.update data.childNames slot (name.take 31) })
    | _ => (-1, s)

def ramfsMkdirOp (s : Vfs) (parent : ℕ) (name : Str) : ℤ × Vfs :=
  ramfsCreate s parent name vfsDirectory

/-- `ramfs_mount_op` on the mount table entry `mp`. -/
def ramfsMountOp (s : Vfs) (mp : ℕ) : ℤ × Vfs :=
  match ramfsAllocNode s [slash] vfsDirectory with
  | (none, s) => (-1, s)
  | (some root, s) =>
    let s := s.setNode root { s.ramfsNodePool root with inode := 0, ops := some .ramfs }
    (0, s.setMount mp { s.gMounts mp with root := some root })

end Rhoudveine.Fs
