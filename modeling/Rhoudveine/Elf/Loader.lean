import Rhoudveine.Mm.Paging
import Rhoudveine.Lib.Bytes

/-!
# The ELF64 loader

`elf64_load_and_run` and `sys_exec`.  The image is read as a memory whose address 0 is the
first byte of the buffer, so that reads past the end of the file see what lies behind it.
Writes to a virtual address go through the page tables.  The loader also returns the log of
what it read, mapped and wrote.
-/

namespace Rhoudveine.Elf
open Mm

/-! ## The file format -/

def load16 (m : Memory) (a : UInt64) : UInt16 := UInt16.ofNat (m.loadLE a 2)

def load32 (m : Memory) (a : UInt64) : UInt32 := UInt32.ofNat (m.loadLE a 4)

/-- The fields of `struct elf64_phdr` that the loader reads. -/
structure Phdr where
  pType : UInt32
  pFlags : UInt32
  pOffset : UInt64
  pVaddr : UInt64
  pFilesz : UInt64
  pMemsz : UInt64
  deriving DecidableEq

def phdrAt (image : Memory) (off : UInt64) : Phdr where
  pType := load32 image off
  pFlags := load32 image (off + 4)
  pOffset := image.load64 (off + 8)
  pVaddr := image.load64 (off + 16)
  pFilesz := image.load64 (off + 32)
  pMemsz := image.load64 (off + 40)

/-- The fields of `struct elf64_hdr` behind `e_ident`. -/
def eEntry (image : Memory) : UInt64 := image.load64 24
def ePhoff (image : Memory) : UInt64 := image.load64 32
def ePhentsize (image : Memory) : UInt16 := load16 image 54
def ePhnum (image : Memory) : UInt16 := load16 image 56

/-- The offsets of the program headers, `e_phoff + i * e_phentsize` in 64 bits. -/
def phdrOffsets (image : Memory) : List UInt64 :=
  (List.range (ePhnum image).toNat).map fun i =>
    ePhoff image + UInt64.ofNat i * (ePhentsize image).toUInt64

/-- `sizeof(struct elf64_hdr)`. -/
def ehdrSize : UInt32 := 64

def ptLoad : UInt32 := 1

/-- `PF_X`. -/
def pfX : UInt32 := 1

def validMagic (image : Memory) : Bool :=
  image 0 == 0x7F && image 1 == 0x45 && image 2 == 0x4C && image 3 == 0x46

/-- `x & ~0xFFF`. -/
def pageOf (a : UInt64) : UInt64 := a &&& ~~~(0xFFF : UInt64)

namespace Phdr

def pageStart (ph : Phdr) : UInt64 := pageOf ph.pVaddr

/-- `(virt_end + 0xFFF) & ~0xFFF`, where `virt_end` may wrap. -/
def pageEnd (ph : Phdr) : UInt64 := pageOf (ph.pVaddr + ph.pMemsz + 0xFFF)

/-- `for (v = page_start; v < page_end; v += 4096)`. -/
def pages (ph : Phdr) : List UInt64 :=
  (List.range ((ph.pageEnd.toNat - ph.pageStart.toNat) / 4096)).map fun i =>
    ph.pageStart + UInt64.ofNat i * pageSize

def segFlags (ph : Phdr) : UInt64 :=
  if ph.pFlags &&& pfX = 0 then pagePresent ||| pageRw ||| pageUser ||| pageNoExec
  else pagePresent ||| pageRw ||| pageUser

end Phdr

/-! ## Memory through the page tables -/

/-- A byte stored at a virtual address.  A store to an address that is not mapped faults in
the processor; here it changes nothing. -/
def storeVirt (vm : Vm) (v : UInt64) (b : UInt8) : Vm :=
  match vm.physAt v with
  | some p => { vm with mem := vm.mem.store8 p b }
  | none => vm

/-- The byte at a virtual address. -/
def readVirt (vm : Vm) (v : UInt64) : Option UInt8 := (vm.physAt v).map vm.mem

def elfMemcpy (vm : Vm) (dst : UInt64) (image : Memory) (src : UInt64) : ℕ → Vm
  | 0 => vm
  | n + 1 => elfMemcpy (storeVirt vm dst (image src)) (dst + 1) image (src + 1) n

def elfMemset (vm : Vm) (dst : UInt64) (c : UInt8) : ℕ → Vm
  | 0 => vm
  | n + 1 => elfMemset (storeVirt vm dst c) (dst + 1) c n

/-! ## The log -/

/-- What the loader does: `n` bytes of the buffer read at `off`, a new segment, a call of
`map_page` and whether it mapped the page, `n` bytes written at `v`. -/
inductive Event
  | read (off : UInt64) (n : ℕ)
  | segment
  | map (v : UInt64) (done : Bool)
  | write (v : UInt64) (n : ℕ)

/-! ## Loading -/

/-- A frame and a call of `map_page` for each page; `false` when no frame is left. -/
def mapLoop (vm : Vm) (flags : UInt64) : List UInt64 → Bool × List Event × Vm
  | [] => (true, [], vm)
  | v :: vs =>
    let alloc := pfaAllocLow vm.pfa
    if alloc.1 = 0 then (false, [], { vm with pfa := alloc.2 })
    else
      let mapped := mapPage { vm with pfa := alloc.2 } alloc.1 v flags
      let rest := mapLoop mapped.2 flags vs
      (rest.1, .map v mapped.1 :: rest.2.1, rest.2.2)

/-- The copy of a segment and the zeroing of its tail. -/
def copySegment (vm : Vm) (image : Memory) (ph : Phdr) : List Event × Vm :=
  let vm := elfMemcpy vm ph.pVaddr image ph.pOffset ph.pFilesz.toNat
  let copied := [.read ph.pOffset ph.pFilesz.toNat, .write ph.pVaddr ph.pFilesz.toNat]
  if ph.pMemsz > ph.pFilesz then
    (copied ++ [.write (ph.pVaddr + ph.pFilesz) (ph.pMemsz - ph.pFilesz).toNat],
      elfMemset vm (ph.pVaddr + ph.pFilesz) 0 (ph.pMemsz - ph.pFilesz).toNat)
  else (copied, vm)

/-- The fields read before the bounds check, and those read after it. -/
def readsType (off : UInt64) : List Event := [.read off 4]
def readsFile (off : UInt64) : List Event := [.read (off + 8) 8, .read (off + 32) 8]
def readsMemory (off : UInt64) : List Event := [.read (off + 4) 4, .read (off + 16) 8, .read (off + 40) 8]

/-- One program header; a code is a `return`. -/
def loadSegment (vm : Vm) (image : Memory) (size : UInt32) (off : UInt64) :
    Option ℤ × List Event × Vm :=
  let ph := phdrAt image off
  if ph.pType ≠ ptLoad then (none, readsType off, vm)
  else if ph.pOffset + ph.pFilesz > size.toUInt64 then
    (some (-4), readsType off ++ readsFile off, vm)
  else
    let header := readsType off ++ readsFile off ++ readsMemory off ++ [.segment]
    let mapped := mapLoop vm ph.segFlags ph.pages
    if mapped.1 then
      let copied := copySegment mapped.2.2 image ph
      (none, header ++ mapped.2.1 ++ copied.1, copied.2)
    else (some (-5), header ++ mapped.2.1, mapped.2.2)

def loadSegments (vm : Vm) (image : Memory) (size : UInt32) :
    List UInt64 → Option ℤ × List Event × Vm
  | [] => (none, [], vm)
  | off :: offs =>
    let loaded := loadSegment vm image size off
    match loaded.1 with
    | some code => (some code, loaded.2)
    | none =>
      let rest := loadSegments loaded.2.2 image size offs
      (rest.1, loaded.2.1 ++ rest.2.1, rest.2.2)

def initStackPages : ℕ := 4

def initStackTop : UInt64 := 0x0000700000000000

/-- `INIT_STACK_TOP - (p + 1) * 4096`. -/
def stackPages : List UInt64 :=
  (List.range initStackPages).map fun p => initStackTop - UInt64.ofNat (p + 1) * 4096

def stackFlags : UInt64 := pagePresent ||| pageRw ||| pageUser ||| pageNoExec

/-- A returned code, or the jump to user mode. -/
inductive Outcome
  | code (c : ℤ)
  | jump (entry rsp : UInt64)
  deriving DecidableEq

def elf64LoadAndRun (vm : Vm) (image : Memory) (size : UInt32) : Outcome × List Event × Vm :=
  if size < ehdrSize then (.code (-1), [], vm)
  else if !validMagic image then (.code (-2), [.read 0 64], vm)
  else if image 4 ≠ 2 then (.code (-3), [.read 0 64], vm)
  else
    let loaded := loadSegments vm image size (phdrOffsets image)
    match loaded.1 with
    | some code => (.code code, .read 0 64 :: loaded.2.1, loaded.2.2)
    | none =>
      let stack := mapLoop loaded.2.2 stackFlags stackPages
      if stack.1 then
        (.jump (eEntry image) initStackTop, .read 0 64 :: loaded.2.1 ++ .segment :: stack.2.1,
          stack.2.2)
      else (.code (-6), .read 0 64 :: loaded.2.1 ++ .segment :: stack.2.1, stack.2.2)

/-! ## The system call -/

/-- What `vfs_open` and `vfs_read` give for a path: no descriptor, or the number of bytes read
and the contents of `exec_buf`. -/
inductive ExecFile
  | notFound
  | opened (bytesRead : ℤ) (execBuf : Memory)

def sysExec (vm : Vm) : ExecFile → Outcome × Vm
  | .notFound => (.code (-1), vm)
  | .opened bytesRead execBuf =>
    if bytesRead ≤ 0 then (.code (-2), vm)
    else
      let loaded := elf64LoadAndRun vm execBuf (UInt32.ofInt bytesRead)
      (loaded.1, loaded.2.2)

/-! ## Files -/

/-- A 64-bit ELF header with the entry point 0x400000, whose program headers follow it. -/
def headerBytes (phnum : UInt8) : List UInt8 :=
  [0x7F, 0x45, 0x4C, 0x46, 2] ++ .replicate 21 0 ++ [0x40] ++ .replicate 5 0 ++ [64] ++
    .replicate 21 0 ++ [56, 0, phnum] ++ .replicate 7 0

def wordBytes (x : UInt64) : List UInt8 :=
  (List.range 8).map fun i => UInt8.ofNat (x.toNat / 256 ^ i)

/-- A `PT_LOAD` header. -/
def loadBytes (pOffset pVaddr pFilesz pMemsz : UInt64) : List UInt8 :=
  [1] ++ .replicate 7 0 ++ wordBytes pOffset ++ wordBytes pVaddr ++ wordBytes 0 ++
    wordBytes pFilesz ++ wordBytes pMemsz ++ wordBytes 4096

end Rhoudveine.Elf
