import Rhoudveine.Fat32.Directory

/-!
# FAT32 files

`fat32_read` and `fat32_write`.  The parts of a cluster buffer that they copy lie in what
they transfer.
-/

namespace Rhoudveine.Fat32
open Mm

variable (dev : Device)

/-- A byte count as the driver returns it. -/
def countValue (n : UInt32) : ℤ := n.toInt32.toInt

/-- What is copied from or to a cluster. -/
def copySize (clusterSize clusterOffset size : UInt32) : UInt32 :=
  if clusterSize - clusterOffset > size then size else clusterSize - clusterOffset

/-! ## Reading -/

/-- Follow `n` links; `none` at the end of the chain. -/
def skipClusters : (n : ℕ) → (cluster : UInt32) → Volume → Option UInt32 × Volume
  | 0, cluster, st => (some cluster, st)
  | n + 1, cluster, st =>
    match fat32GetFatEntry st cluster with
    | (cluster, st) =>
      if cluster ≥ endOfChain then (none, st) else skipClusters n cluster st

/-- The copying loop of `fat32_read`; every round copies at least one byte, so `size` rounds
are enough. -/
def readClusters (page : UInt64) (clusterSize : UInt32) : (rounds : ℕ) → (size cluster : UInt32) →
    (clusterOffset : UInt32) → (buf : ℕ → UInt8) → (bytes : List UInt8) → Volume →
    List UInt8 × Volume
  | 0, _, _, _, _, bytes, st => (bytes, st)
  | rounds + 1, size, cluster, clusterOffset, buf, bytes, st =>
    if size > 0 ∧ cluster < endOfChain then
      match fat32ReadCluster dev st cluster page buf with
      | (false, _, st) => (bytes, st)
      | (true, buf, st) =>
        let n := copySize clusterSize clusterOffset size
        let bytes := bytes ++ (List.range n.toNat).map fun i => buf (clusterOffset.toNat + i)
        match fat32GetFatEntry st cluster with
        | (cluster, st) => readClusters page clusterSize rounds (size - n) cluster 0 buf bytes st
    else (bytes, st)

/-- The return value of `fat32_read`, the bytes it stores and the state after it. -/
def fat32Read (st : Volume) (node : Node) (offset : UInt64) (size : UInt32) :
    ℤ × List UInt8 × Volume :=
  match node.data with
  | none => (-1, [], st)
  | some data =>
    let clusterSize := st.fs.bs.clusterSize
    if offset ≥ node.size.toUInt64 then (0, [], st)
    else
      let size :=
        if offset + size.toUInt64 > node.size.toUInt64 then (node.size.toUInt64 - offset).toUInt32
        else size
      let skip := (offset / clusterSize.toUInt64).toUInt32
      match skipClusters skip.toNat data.firstCluster st with
      | (none, st) => (0, [], st)
      | (some cluster, st) =>
        match st.alloc with
        | (page, st) =>
          let clusterOffset := (offset % clusterSize.toUInt64).toUInt32
          match readClusters dev page clusterSize size.toNat size cluster clusterOffset
            (dev.leftover page) [] st with
          | (bytes, st) => (countValue (UInt32.ofNat bytes.length), bytes, st.free page)

/-! ## Writing -/

/-- The next cluster of a chain, a new one at its end; `none` if there is none. -/
def nextCluster (st : Volume) (cluster : UInt32) : Option UInt32 × Volume :=
  match fat32GetFatEntry st cluster with
  | (next, st) =>
    if next ≥ endOfChain then
      match fat32ExtendChain dev st cluster with
      | (new, st) => if new = 0 then (none, st) else (some new, st)
    else (some next, st)

/-- Go on by `n` clusters, extending the chain where it ends. -/
def skipExtending : (n : ℕ) → (cluster : UInt32) → Volume → Option UInt32 × Volume
  | 0, cluster, st => (some cluster, st)
  | n + 1, cluster, st =>
    match nextCluster dev st cluster with
    | (none, st) => (none, st)
    | (some cluster, st) => skipExtending n cluster st

/-- The cluster buffer before the copy: the old contents where they are not all replaced. -/
def loadForWrite (st : Volume) (page : UInt64) (clusterSize size cluster clusterOffset : UInt32)
    (buf : ℕ → UInt8) : (ℕ → UInt8) × Volume :=
  if clusterOffset ≠ 0 ∨ size < clusterSize then (fat32ReadCluster dev st cluster page buf).2
  else (buf, st)

/-- The copying loop of `fat32_write`: the number of bytes written, and `false` for one of the
returns in the middle. -/
def writeClusters (page : UInt64) (clusterSize : UInt32) (buffer : ℕ → UInt8) : (rounds : ℕ) →
    (size cluster clusterOffset : UInt32) → (buf : ℕ → UInt8) → (written : UInt32) → Volume →
    UInt32 × Bool × Volume
  | 0, _, _, _, _, written, st => (written, true, st)
  | rounds + 1, size, cluster, clusterOffset, buf, written, st =>
    if size = 0 then (written, true, st)
    else
      match loadForWrite dev st page clusterSize size cluster clusterOffset buf with
      | (buf, st) =>
        let n := copySize clusterSize clusterOffset size
        let start := clusterOffset.toNat
        let buf := fun i => if start ≤ i ∧ i < start + n.toNat then
          buffer (written.toNat + (i - start)) else buf i
        match fat32WriteCluster dev st cluster page buf with
        | (false, st) => (written, false, st)
        | (true, st) =>
          if size - n > 0 then
            match nextCluster dev st cluster with
            | (none, st) => (written + n, false, st)
            | (some cluster, st) =>
              writeClusters page clusterSize buffer rounds (size - n) cluster 0 buf (written + n) st
          else (written + n, true, st)

/-- The first cluster of a file, allocated if it has none; 0 if that fails. -/
def startCluster (st : Volume) (firstCluster : UInt32) : UInt32 × Volume :=
  if firstCluster = 0 ∨ firstCluster ≥ endOfChain then fat32AllocCluster dev st
  else (firstCluster, st)

/-- The return value of `fat32_write`, and the node and the state after it. -/
def fat32Write (st : Volume) (node : Node) (offset : UInt64) (size : UInt32)
    (buffer : ℕ → UInt8) : ℤ × Node × Volume :=
  match node.data with
  | none => (-1, node, st)
  | some data =>
    let clusterSize := st.fs.bs.clusterSize
    match startCluster dev st data.firstCluster with
    | (first, st) =>
      if first = 0 then (-1, node, st)
      else
        let node := { node with data := some { data with firstCluster := first } }
        let skip := (offset / clusterSize.toUInt64).toUInt32
        match skipExtending dev skip.toNat first st with
        | (none, st) => (0, node, st)
        | (some cluster, st) =>
          match st.alloc with
          | (page, st) =>
            let clusterOffset := (offset % clusterSize.toUInt64).toUInt32
            match writeClusters dev page clusterSize buffer size.toNat size cluster clusterOffset
              (dev.leftover page) 0 st with
            | (written, false, st) => (countValue written, node, st.free page)
            | (written, true, st) =>
              let last := offset + written.toUInt64
              let node :=
                if last > node.size.toUInt64 then { node with size := last.toUInt32 } else node
              (countValue written, node, st.free page)

end Rhoudveine.Fat32
