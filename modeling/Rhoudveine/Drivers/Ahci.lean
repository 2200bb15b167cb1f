import Rhoudveine.Lib.Memory
import Rhoudveine.Lib.Search

/-!
# AHCI port transfers

`port_read` and `port_write` over one port.  The hardware is a table of readings:
the n-th read of a polled register returns whatever `reading` says, so the
theorems hold for every behaviour of the device.  Register accesses and messages
go to a trace, the command structures to memory.
-/

namespace Rhoudveine.Ahci
open Search

/-- The registers that a transfer polls or writes. -/
inductive PortReg
  | tfd | ci | is | sact
  deriving DecidableEq, Repr

inductive Event
  | read (r : PortReg) (v : UInt32)
  | write (r : PortReg) (v : UInt32)
  | kprintf (text : String) (color : UInt32)
  deriving DecidableEq, Repr

/-- A port: its command list and what the reads of its registers return. -/
structure Port where
  clb : UInt32
  reading : PortReg → ℕ → UInt32

/-- The state of a transfer: memory, the number of reads so far and the trace. -/
structure Io where
  mem : Memory
  reads : PortReg → ℕ
  trace : List Event

namespace Io

def start (mem : Memory) : Io := ⟨mem, fun _ => 0, []⟩

def read (port : Port) (r : PortReg) (io : Io) : UInt32 × Io :=
  let v := port.reading r (io.reads r)
  (v, { io with
    reads := Function.update io.reads r (io.reads r + 1)
    trace := io.trace ++ [.read r v] })

@[simp] theorem read_fst (port : Port) (r : PortReg) (io : Io) :
    (io.read port r).1 = port.reading r (io.reads r) := rfl

@[simp] theorem read_trace (port : Port) (r : PortReg) (io : Io) :
    (io.read port r).2.trace = io.trace ++ [.read r (port.reading r (io.reads r))] := rfl

@[simp] theorem read_reads_self (port : Port) (r : PortReg) (io : Io) :
    (io.read port r).2.reads r = io.reads r + 1 := Function.update_self ..

theorem read_reads_of_ne (port : Port) {r r' : PortReg} (io : Io) (h : r' ≠ r) :
    (io.read port r).2.reads r' = io.reads r' := Function.update_of_ne h ..

def write (r : PortReg) (v : UInt32) (io : Io) : Io :=
  { io with trace := io.trace ++ [.write r v] }

/-- All messages of this driver's error paths are red. -/
def kprintf (text : String) (io : Io) : Io :=
  { io with trace := io.trace ++ [.kprintf text 0xFFFF0000] }

end Io

/-! ## Command slots and structures -/

/-- `1 << slot` in the `ci` and `sact` registers. -/
def slotBit (slot : ℕ) : UInt32 := (1 : UInt32) <<< UInt32.ofNat slot

/-- The first of the 32 slots that `slots` does not mark, `none` for -1. -/
def freeSlot (slots : UInt32) : Option ℕ :=
  firstSome (fun i => if slots &&& slotBit i = 0 then some i else none) 32 0

def findCmdslot (port : Port) (io : Io) : Option ℕ × Io :=
  let (sact, io) := io.read port .sact
  let (ci, io) := io.read port .ci
  (freeSlot (sact ||| ci), io)

/-- What distinguishes `port_read` from `port_write`. -/
structure Transfer where
  /-- The `w` bit of the command header. -/
  w : UInt8
  command : UInt8
  timeoutText : String

def readDma : Transfer := ⟨0, 0x25, "AHCI: Read timeout\n"⟩

def writeDma : Transfer := ⟨1, 0x35, "AHCI: Write timeout\n"⟩

/-- The command header of a slot: `cfl`, `w` and `prdtl`. -/
def fillHeader (t : Transfer) (header : UInt64) (mem : Memory) : Memory :=
  let mem := mem.store8 header (mem header &&& ~~~0x1F ||| 5)
  let mem := mem.store8 header (mem header &&& ~~~0x40 ||| t.w <<< (6 : UInt8))
  mem.storeLE (header + 2) 2 1

/-- The one PRDT entry, 128 bytes into the command table: `dba`, `dbau`, the 22 bits
of `dbc` and the `i` bit. -/
def fillPrdt (table : UInt64) (count : UInt32) (buffer : UInt64) (mem : Memory) : Memory :=
  let mem := mem.storeLE (table + 128) 4 buffer.toNat
  let mem := mem.storeLE (table + 132) 4 (buffer >>> 32).toNat
  let dw3 := UInt32.ofNat (mem.loadLE (table + 140) 4)
  let mem := mem.storeLE (table + 140) 4
    (dw3 &&& ~~~0x3FFFFF ||| (count * 512 - 1) &&& 0x3FFFFF).toNat
  let dw3 := UInt32.ofNat (mem.loadLE (table + 140) 4)
  mem.storeLE (table + 140) 4 (dw3 &&& ~~~0x80000000).toNat

/-- The command FIS at the start of the command table. -/
def fillFis (t : Transfer) (table : UInt64) (lba : UInt64) (count : UInt32) (mem : Memory) :
    Memory :=
  let mem := mem.store8 table 0x27
  let mem := mem.store8 (table + 1) (mem (table + 1) ||| 0x80)
  let mem := mem.store8 (table + 2) t.command
  let mem := mem.store8 (table + 4) lba.toUInt8
  let mem := mem.store8 (table + 5) (lba >>> 8).toUInt8
  let mem := mem.store8 (table + 6) (lba >>> 16).toUInt8
  let mem := mem.store8 (table + 8) (lba >>> 24).toUInt8
  let mem := mem.store8 (table + 9) (lba >>> 32).toUInt8
  let mem := mem.store8 (table + 10) (lba >>> 40).toUInt8
  let mem := mem.store8 (table + 7) ((1 : UInt8) <<< 6)
  mem.storeLE (table + 12) 2 count.toNat

/-- Everything a transfer writes to memory before it waits for the port. -/
def fillCommand (t : Transfer) (clb : UInt32) (slot : ℕ) (lba : UInt64) (count : UInt32)
    (buffer : UInt64) (mem : Memory) : Memory :=
  let header := clb.toUInt64 + 32 * UInt64.ofNat slot
  let mem := fillHeader t header mem
  let table := UInt64.ofNat (mem.loadLE (header + 8) 4)
  let mem := mem.memset table 0 144
  let mem := fillPrdt table count buffer mem
  fillFis t table lba count mem

/-! ## Polling -/

/-- `BSY` or `DRQ` in the task file register. -/
def Busy (tfd : UInt32) : Prop := tfd &&& (0x80 ||| 0x08) ≠ 0

instance (tfd : UInt32) : Decidable (Busy tfd) := inferInstanceAs (Decidable (_ ≠ _))

/-- The task file error bit of the interrupt status register. -/
def taskFileError : UInt32 := (1 : UInt32) <<< 30

/-- `while (busy && timeout-- > 0);` and the value it leaves in `timeout`. -/
def waitReady (port : Port) : (timeout : ℕ) → Io → ℤ × Io
  | 0, io =>
    let (tfd, io) := io.read port .tfd
    if Busy tfd then (-1, io) else (0, io)
  | timeout + 1, io =>
    let (tfd, io) := io.read port .tfd
    if Busy tfd then waitReady port timeout io else (timeout + 1, io)

/-- `while (timeout-- > 0) { … }` and the value it leaves in `timeout`; `none` for the
return on a task file error. -/
def waitDone (port : Port) (bit : UInt32) : (timeout : ℕ) → Io → Option ℤ × Io
  | 0, io => (some (-1), io)
  | timeout + 1, io =>
    let (ci, io) := io.read port .ci
    if ci &&& bit = 0 then (some timeout, io)
    else
      let (is, io) := io.read port .is
      if is &&& taskFileError ≠ 0 then (none, io) else waitDone port bit timeout io

/-- From the issued command to the return: `bit` is the slot's bit in `ci`. -/
def awaitCompletion (t : Transfer) (port : Port) (bit : UInt32) (io : Io) : ℤ × Io :=
  match waitDone port bit 1000000 io with
  | (none, io) => (-1, io.kprintf "AHCI: Task file error\n")
  | (some timeout, io) =>
    if timeout = 0 then (-1, io.kprintf t.timeoutText)
    else
      let (is, io) := io.read port .is
      if is &&& taskFileError ≠ 0 then
        (-1, io.kprintf "AHCI: Task file error after completion\n")
      else (0, io)

/-- The common body of `port_read` and `port_write`. -/
def portTransfer (t : Transfer) (port : Port) (lba : UInt64) (count : UInt32) (buffer : UInt64)
    (io : Io) : ℤ × Io :=
  let io := io.write .is 0xFFFFFFFF
  match findCmdslot port io with
  | (none, io) => (-1, io.kprintf "AHCI: No free command slots\n")
  | (some slot, io) =>
    let io := { io with mem := fillCommand t port.clb slot lba count buffer io.mem }
    match waitReady port 100000 io with
    | (timeout, io) =>
      if timeout = 0 then (-1, io.kprintf "AHCI: Port hung\n")
      else awaitCompletion t port (slotBit slot) (io.write .ci (slotBit slot))

def portRead : Port → (lba : UInt64) → (count : UInt32) → (buffer : UInt64) → Io → ℤ × Io :=
  portTransfer readDma

def portWrite : Port → (lba : UInt64) → (count : UInt32) → (buffer : UInt64) → Io → ℤ × Io :=
  portTransfer writeDma

end Rhoudveine.Ahci
