import Rhoudveine.Fs.Calls
import Rhoudveine.Lib.Copying

/-!
# Left-over contents of frames

No call decides anything by what the frames hold: the files are a machine that only
copies them.  So what the reads of a run give away about the old contents of the frames
is what they load from bytes that no write of the run stored.
-/

namespace Rhoudveine.Fs
open Search Copying

variable {answers : ℕ → UInt64}

/-! ## The bytes of a file -/

/-- A byte of a frame. -/
abbrev Cell := UInt64 × ℕ

/-- Where the byte at an offset is; `none` where a page is missing. -/
def FileData.cell (file : FileData) (offset : UInt64) : Option Cell :=
  if pageIdx offset ≥ file.numPages then none
  else (file.pages (pageIdx offset).toNat).map fun frame => (frame, (pageOffset offset).toNat)

/-- Where the `n` bytes from `offset` on are, up to the first missing page. -/
def FileData.cells (file : FileData) : (n : ℕ) → (offset : UInt64) → List Cell
  | 0, _ => []
  | n + 1, offset =>
    match file.cell offset with
    | none => []
    | some c => c :: file.cells n (offset + 1)

/-- The contents of the frames as a memory of cells. -/
def memory (frames : UInt64 → ℕ → UInt8) (c : Cell) : UInt8 := frames c.1 c.2

/-- The frames after some stores. -/
def storeFrames (frames : UInt64 → ℕ → UInt8) (stores : List (Cell × UInt8)) :
    UInt64 → ℕ → UInt8 :=
  fun frame i => store (memory frames) stores (frame, i)

@[simp] theorem memory_storeFrames (frames : UInt64 → ℕ → UInt8) (stores : List (Cell × UInt8)) :
    memory (storeFrames frames stores) = store (memory frames) stores := rfl

@[simp] theorem storeFrames_nil (frames : UInt64 → ℕ → UInt8) :
    storeFrames frames [] = frames := rfl

theorem storeFrames_append (frames : UInt64 → ℕ → UInt8) (stores more : List (Cell × UInt8)) :
    storeFrames frames (stores ++ more) = storeFrames (storeFrames frames stores) more := by
  funext frame i
  simp only [storeFrames, store_append]
  rfl

section cells

variable {file : FileData} {offset : UInt64}

theorem cells_of_missing (h : file.cell offset = none) (n : ℕ) : file.cells n offset = [] := by
  cases n with
  | zero => rfl
  | succ n => rw [FileData.cells, h]

theorem position_succ (h : position offset % 4096 + 1 < 4096) :
    position (offset + 1) = position offset + 1 := by
  have hlt : position offset < 2 ^ 44 := Nat.mod_lt _ (by norm_num)
  exact position_add offset 1 (by
    change position offset + 1 < 2 ^ 44
    omega)

/-- The bytes of a chunk follow one another in the frame of its page. -/
theorem cells_chunk {n : ℕ} {frame : UInt64} (hlt : ¬ pageIdx offset ≥ file.numPages)
    (hpage : file.pages (pageIdx offset).toNat = some frame)
    (hn : position offset % 4096 + n ≤ 4096) :
    file.cells n offset =
      (List.range n).map fun i => (frame, (pageOffset offset).toNat + i) := by
  induction n generalizing offset with
  | zero => rfl
  | succ n ih =>
    have hcell : file.cell offset = some (frame, (pageOffset offset).toNat) := by
      rw [FileData.cell, if_neg hlt, hpage, Option.map_some]
    rw [FileData.cells, hcell, List.range_succ_eq_map, List.map_cons, List.map_map]
    simp only [List.cons.injEq, Nat.add_zero, true_and]
    by_cases hzero : n = 0
    · subst hzero
      rfl
    · have hnext := @position_succ offset (by omega)
      have hidx : pageIdx (offset + 1) = pageIdx offset := by
        apply UInt32.toNat_inj.mp
        rw [toNat_pageIdx, toNat_pageIdx, hnext]
        omega
      rw [ih (by rwa [hidx]) (by rwa [hidx]) (by omega)]
      apply List.map_congr_left
      intro i _
      rw [toNat_pageOffset, hnext, Function.comp_apply, toNat_pageOffset]
      congr 1
      omega

theorem cells_add {a : ℕ} (b : ℕ) (h : (file.cells a offset).length = a) :
    file.cells (a + b) offset =
      file.cells a offset ++ file.cells b (offset + UInt64.ofNat a) := by
  induction a generalizing offset with
  | zero =>
    rw [Nat.zero_add, FileData.cells, List.nil_append]
    congr 1
    exact (UInt64.add_zero offset).symm
  | succ a ih =>
    rw [FileData.cells] at h
    rw [Nat.succ_add, FileData.cells, FileData.cells]
    cases hcell : file.cell offset with
    | none =>
      rw [hcell] at h
      cases h
    | some c =>
      rw [hcell] at h
      have hlen : (file.cells a (offset + 1)).length = a := Nat.succ.inj h
      simp only [List.cons_append, List.cons.injEq, true_and]
      rw [ih hlen]
      congr 2
      rw [UInt64.add_assoc]
      congr 1
      rw [UInt64.ofNat_add, UInt64.add_comm]
      rfl

/-- The bytes of a transfer: those of its first chunk, then the others. -/
theorem cells_split {remaining : UInt32} {frame : UInt64} (hlt : ¬ pageIdx offset ≥ file.numPages)
    (hpage : file.pages (pageIdx offset).toNat = some frame) :
    file.cells remaining.toNat offset =
      ((List.range (chunk offset remaining).toNat).map fun i =>
          (frame, (pageOffset offset).toNat + i)) ++
        file.cells (remaining - chunk offset remaining).toNat
          (offset + (chunk offset remaining).toUInt64) := by
  have hn := toNat_chunk offset remaining
  have hremaining := toNat_sub_chunk offset remaining
  have hchunk : file.cells (chunk offset remaining).toNat offset =
      (List.range (chunk offset remaining).toNat).map fun i =>
        (frame, (pageOffset offset).toNat + i) :=
    cells_chunk hlt hpage (by omega)
  have hsplit : remaining.toNat = (chunk offset remaining).toNat +
      (remaining - chunk offset remaining).toNat := by omega
  have hoffset : UInt64.ofNat (chunk offset remaining).toNat =
      (chunk offset remaining).toUInt64 := by
    apply UInt64.toNat_inj.mp
    rw [UInt64.toNat_ofNat', UInt32.toNat_toUInt64]
    omega
  rw [hsplit, cells_add, hchunk, hoffset]
  rw [hchunk, List.length_map, List.length_range]

end cells

/-! ## The loops -/

theorem copyIn_eq_store (frames : UInt64 → ℕ → UInt8) (frame : UInt64) (start n : ℕ)
    (src : ℕ → UInt8) :
    Paged.copyIn frames frame start n src =
      storeFrames frames ((List.range n).map fun i => ((frame, start + i), src i)) := by
  induction n with
  | zero => exact Paged.copyIn_zero frames frame start src
  | succ n ih =>
    rw [Paged.copyIn_succ, List.range_succ, List.map_append, storeFrames_append, ← ih]
    funext f o
    simp only [storeFrames, List.map_cons, List.map_nil, store_cons, store_nil]
    by_cases hf : f = frame
    · subst hf
      rw [Paged.copyIn_self]
      by_cases ho : o = start + n
      · subst ho
        rw [if_pos ⟨Nat.le_refl _, Nat.lt_succ_self _⟩, Function.update_self]
      · have hne : (f, o) ≠ (f, start + n) := fun heq => ho (Prod.mk.inj heq).2
        rw [if_neg (by omega), Function.update_of_ne hne]
        rfl
    · have hne : (f, o) ≠ (frame, start + n) := fun heq => hf (Prod.mk.inj heq).1
      rw [Paged.copyIn_of_ne _ _ _ _ hf, Function.update_of_ne hne]
      rfl

/-- What a write stores from its byte number `written` on. -/
def storesFrom (cells : List Cell) (data : ℕ → UInt8) (written : ℕ) : List (Cell × UInt8) :=
  (cells.zipIdx written).map fun p => (p.1, data p.2)

theorem storesFrom_append (cells more : List Cell) (data : ℕ → UInt8) (written : ℕ) :
    storesFrom (cells ++ more) data written =
      storesFrom cells data written ++ storesFrom more data (written + cells.length) := by
  rw [storesFrom, List.zipIdx_append, List.map_append, storesFrom, storesFrom]

theorem storesFrom_range (frame : UInt64) (start n written : ℕ) (data : ℕ → UInt8) :
    storesFrom ((List.range n).map fun i => (frame, start + i)) data written =
      (List.range n).map fun i => ((frame, start + i), data (written + i)) := by
  induction n with
  | zero => rfl
  | succ n ih =>
    rw [List.range_succ, List.map_append, storesFrom_append, ih, List.map_append]
    simp [storesFrom]

/-- The reading loop takes the same course on any frames, and returns what its cells hold. -/
theorem readLoop_frames (file : FileData) {fileSize : UInt32} (frames frames' : UInt64 → ℕ → UInt8)
    {rounds : ℕ} {readCount remaining : UInt32} {offset : UInt64} (buffer buffer' : List UInt8)
    (hrounds : remaining.toNat ≤ rounds) (hfit : offset.toNat + remaining.toNat ≤ fileSize.toNat) :
    readLoop file fileSize frames rounds readCount remaining offset buffer =
      (readLoop file fileSize frames' rounds readCount remaining offset buffer').map fun out =>
        (out.1, buffer ++ (file.cells remaining.toNat offset).map (memory frames)) := by
  induction rounds generalizing readCount remaining offset buffer buffer' with
  | zero =>
    have hzero : remaining.toNat = 0 := Nat.le_zero.mp hrounds
    simp [readLoop, hzero, FileData.cells]
  | succ rounds ih =>
    by_cases hzero : remaining = 0
    · subst hzero
      simp [readLoop, FileData.cells]
    · have hpos : remaining.toNat ≠ 0 := fun h => hzero (UInt32.toNat_inj.mp h)
      have hn := toNat_chunk offset remaining
      have hgo : remaining > 0 ∧ offset < fileSize.toUInt64 := by
        refine ⟨UInt32.lt_iff_toNat_lt.mpr (Nat.pos_of_ne_zero hpos), ?_⟩
        rw [UInt64.lt_iff_toNat_lt, UInt32.toNat_toUInt64]
        omega
      rw [readLoop, readLoop, if_pos hgo, if_pos hgo]
      by_cases hge : pageIdx offset ≥ file.numPages
      · have hcell : file.cell offset = none := if_pos hge
        simp [hge, cells_of_missing hcell]
      · simp only [if_neg hge]
        by_cases hbound : (pageIdx offset).toNat ≥ maxFilePages
        · simp only [if_pos hbound, Option.map_none]
        · simp only [if_neg hbound]
          cases hpage : file.pages (pageIdx offset).toNat with
          | none =>
            have hcell : file.cell offset = none := by
              rw [FileData.cell, if_neg hge, hpage, Option.map_none]
            simp [cells_of_missing hcell]
          | some frame =>
            have hlt : fileSize.toNat < 2 ^ 32 := fileSize.toNat_lt
            have hremaining := toNat_sub_chunk offset remaining
            have hoffset : (offset + (chunk offset remaining).toUInt64).toNat =
                offset.toNat + (chunk offset remaining).toNat := by
              rw [UInt64.toNat_add, UInt32.toNat_toUInt64]
              omega
            simp only
            rw [ih _ (buffer' ++ (List.range (chunk offset remaining).toNat).map fun i =>
                frames' frame ((pageOffset offset).toNat + i)) (by omega) (by omega),
              cells_split hge hpage]
            simp only [List.map_append, List.map_map, Function.comp_def, memory, List.append_assoc]

/-- The writing loop takes the same course on any frames, and stores to its cells. -/
theorem writeLoop_frames (file : FileData) (data : ℕ → UInt8) (frames frames' : UInt64 → ℕ → UInt8)
    {rounds : ℕ} {written remaining : UInt32} {offset : UInt64}
    (hrounds : remaining.toNat ≤ rounds) (hsum : written.toNat + remaining.toNat < 2 ^ 32) :
    writeLoop file data rounds written remaining offset frames =
      (writeLoop file data rounds written remaining offset frames').map fun out =>
        (out.1, storeFrames frames
          (storesFrom (file.cells remaining.toNat offset) data written.toNat)) := by
  induction rounds generalizing written remaining offset frames frames' with
  | zero =>
    have hzero : remaining.toNat = 0 := Nat.le_zero.mp hrounds
    simp [writeLoop, hzero, FileData.cells, storesFrom]
  | succ rounds ih =>
    by_cases hzero : remaining = 0
    · subst hzero
      simp [writeLoop, FileData.cells, storesFrom]
    · have hpos : remaining.toNat ≠ 0 := fun h => hzero (UInt32.toNat_inj.mp h)
      have hn := toNat_chunk offset remaining
      rw [writeLoop, writeLoop, if_neg hzero, if_neg hzero]
      by_cases hge : pageIdx offset ≥ file.numPages
      · have hcell : file.cell offset = none := if_pos hge
        simp [hge, cells_of_missing hcell, storesFrom]
      · simp only [if_neg hge]
        by_cases hbound : (pageIdx offset).toNat ≥ maxFilePages
        · simp only [if_pos hbound, Option.map_none]
        · simp only [if_neg hbound]
          cases hpage : file.pages (pageIdx offset).toNat with
          | none =>
            have hcell : file.cell offset = none := by
              rw [FileData.cell, if_neg hge, hpage, Option.map_none]
            simp [cells_of_missing hcell, storesFrom]
          | some frame =>
            have hwritten := toNat_add_chunk offset hsum
            have hremaining := toNat_sub_chunk offset remaining
            simp only
            rw [ih _ (Paged.copyIn frames' frame _ _ _) (by omega) (by omega),
              cells_split hge hpage, storesFrom_append, storesFrom_range, storeFrames_append,
              copyIn_eq_store, List.length_map, List.length_range, hwritten]


/-! ## Reads and writes -/

/-- The same tables with other contents of the frames. -/
def Vfs.withFrames (s : Vfs) (frames : UInt64 → ℕ → UInt8) : Vfs := { s with frames := frames }

@[simp] theorem withFrames_withFrames (s : Vfs) (f g : UInt64 → ℕ → UInt8) :
    (s.withFrames f).withFrames g = s.withFrames g := rfl

@[simp] theorem withFrames_frames (s : Vfs) : s.withFrames s.frames = s := rfl

/-- The bytes that `ramfs_read` loads. -/
def readCells (s : Vfs) (node : Option ℕ) (offset : UInt64) (size : UInt32) : List Cell :=
  match node with
  | none => []
  | some node =>
    let n := s.ramfsNodePool node
    if n.isDir then []
    else
      match n.fsData with
      | .file k =>
        (s.fileDataPool k).cells (min size.toNat (n.size.toNat - offset.toNat)) offset
      | _ => []

theorem ramfsRead_withFrames (s : Vfs) (f : UInt64 → ℕ → UInt8) (node : Option ℕ)
    (offset : UInt64) (size : UInt32) :
    ramfsRead (s.withFrames f) node offset size =
      (ramfsRead s node offset size).map fun out =>
        (out.1, (readCells s node offset size).map (memory f)) := by
  cases node with
  | none => rfl
  | some node =>
    have hnodes : (s.withFrames f).ramfsNodePool = s.ramfsNodePool := rfl
    have hfiles : (s.withFrames f).fileDataPool = s.fileDataPool := rfl
    simp only [ramfsRead, readCells]
    rw [hnodes, hfiles]
    by_cases hdir : (s.ramfsNodePool node).isDir
    · simp [hdir]
    · simp only [if_neg hdir]
      cases (s.ramfsNodePool node).fsData with
      | null => rfl
      | dir d => rfl
      | file k =>
        by_cases hend : offset ≥ (s.ramfsNodePool node).size.toUInt64
        · have hle := UInt64.le_iff_toNat_le.mp hend
          rw [UInt32.toNat_toUInt64] at hle
          have hnone : min size.toNat ((s.ramfsNodePool node).size.toNat - offset.toNat) = 0 := by
            omega
          simp [hend, hnone, FileData.cells]
        · simp only [if_neg hend]
          have hlt := UInt64.lt_iff_toNat_lt.mp (UInt64.not_le.mp hend)
          rw [UInt32.toNat_toUInt64] at hlt
          have hclip : (if offset + size.toUInt64 > (s.ramfsNodePool node).size.toUInt64 then
              ((s.ramfsNodePool node).size.toUInt64 - offset).toUInt32 else size).toNat = _ :=
            toNat_clip hend
          generalize (if offset + size.toUInt64 > (s.ramfsNodePool node).size.toUInt64 then
            ((s.ramfsNodePool node).size.toUInt64 - offset).toUInt32 else size) = clipped at hclip ⊢
          have hfit : offset.toNat + clipped.toNat ≤ (s.ramfsNodePool node).size.toNat := by omega
          have hframes : (s.withFrames f).frames = f := rfl
          rw [hframes, readLoop_frames (s.fileDataPool k) f s.frames [] [] (Nat.le_refl _) hfit,
            hclip]
          cases readLoop (s.fileDataPool k) (s.ramfsNodePool node).size s.frames _ 0 clipped
            offset [] with
          | none => rfl
          | some out => rfl

/-- The file data that the copying loop of a write works on; `none` if an allocation fails. -/
def grownFile (answers : ℕ → UInt64) (file : FileData) (offset : UInt64) (size : UInt32)
    (allocs : ℕ) : Option FileData :=
  match allocPages answers (endPage offset size) maxFilePages file.numPages file allocs with
  | (false, _, _) => none
  | (true, file, _) =>
    some (if endPage offset size ≥ file.numPages then
      { file with numPages := endPage offset size + 1 } else file)

/-- What `ramfs_write` stores, byte by byte. -/
def writeStores (answers : ℕ → UInt64) (s : Vfs) (node : Option ℕ) (offset : UInt64)
    (size : UInt32) (data : ℕ → UInt8) : List (Cell × UInt8) :=
  match node with
  | none => []
  | some node =>
    if (s.ramfsNodePool node).isDir then []
    else
      match ensureFileData s node (s.ramfsNodePool node).fsData with
      | none => []
      | some (k, s) =>
        match grownFile answers (s.fileDataPool k) offset size s.allocs with
        | none => []
        | some file => storesFrom (file.cells size.toNat offset) data 0

theorem raiseSize_withFrames (s : Vfs) (f : UInt64 → ℕ → UInt8) (node : ℕ) (last : UInt64) :
    raiseSize (s.withFrames f) node last = (raiseSize s node last).withFrames f := by
  have hnodes : (s.withFrames f).ramfsNodePool = s.ramfsNodePool := rfl
  unfold raiseSize
  rw [hnodes]
  by_cases hlast : last > (s.ramfsNodePool node).size.toUInt64
  · simp only [if_pos hlast]
    rfl
  · simp only [if_neg hlast]

theorem storeBytes_withFrames (s : Vfs) (f : UInt64 → ℕ → UInt8) (node k : ℕ) (offset : UInt64)
    (size : UInt32) (data : ℕ → UInt8) :
    storeBytes (s.withFrames f) node k offset size data =
      (storeBytes s node k offset size data).map fun out =>
        (out.1, out.2.withFrames (storeFrames f
          (storesFrom ((s.fileDataPool k).cells size.toNat offset) data 0))) := by
  have hsum : (0 : UInt32).toNat + size.toNat < 2 ^ 32 := by simpa using size.toNat_lt
  have hloop : writeLoop (s.fileDataPool k) data size.toNat 0 size offset f = _ :=
    writeLoop_frames (s.fileDataPool k) data f s.frames (Nat.le_refl size.toNat) hsum
  have hfiles : (s.withFrames f).fileDataPool = s.fileDataPool := rfl
  have hframes : (s.withFrames f).frames = f := rfl
  unfold storeBytes
  rw [hfiles, hframes, hloop]
  cases writeLoop (s.fileDataPool k) data size.toNat 0 size offset s.frames with
  | none => rfl
  | some out =>
    simp only [Option.map_some, Option.some.injEq, Prod.mk.injEq, true_and]
    rw [← raiseSize_withFrames]
    rfl

theorem ensureFileData_withFrames (s : Vfs) (f : UInt64 → ℕ → UInt8) (node : ℕ)
    (fsData : FsData) : ensureFileData (s.withFrames f) node fsData =
      (ensureFileData s node fsData).map fun out => (out.1, out.2.withFrames f) := by
  have hcount : (s.withFrames f).fileDataCount = s.fileDataCount := rfl
  unfold ensureFileData
  rw [hcount]
  by_cases hfull : s.fileDataCount ≥ maxRamfsFiles
  · simp only [if_pos hfull]
    cases fsData <;> rfl
  · simp only [if_neg hfull]
    cases fsData <;> rfl

theorem ramfsWrite_withFrames (s : Vfs) (f : UInt64 → ℕ → UInt8) (node : Option ℕ)
    (offset : UInt64) (size : UInt32) (data : ℕ → UInt8) :
    ramfsWrite answers (s.withFrames f) node offset size data =
      (ramfsWrite answers s node offset size data).map fun out =>
        (out.1, out.2.withFrames
          (storeFrames f (writeStores answers s node offset size data))) := by
  cases node with
  | none => rfl
  | some node =>
    have hnodes : (s.withFrames f).ramfsNodePool = s.ramfsNodePool := rfl
    simp only [ramfsWrite, writeStores]
    rw [hnodes]
    by_cases hdir : (s.ramfsNodePool node).isDir
    · simp [hdir]
    · simp only [if_neg hdir]
      rw [ensureFileData_withFrames]
      cases ensureFileData s node (s.ramfsNodePool node).fsData with
      | none => rfl
      | some out =>
        obtain ⟨k, t⟩ := out
        simp only [Option.map_some, writeFile, grownFile]
        have hfiles : (t.withFrames f).fileDataPool = t.fileDataPool := rfl
        have hallocs : (t.withFrames f).allocs = t.allocs := rfl
        rw [hfiles, hallocs]
        cases allocPages answers (endPage offset size) maxFilePages (t.fileDataPool k).numPages
          (t.fileDataPool k) t.allocs with
        | mk ok out =>
          obtain ⟨file, allocs⟩ := out
          cases ok with
          | false => rfl
          | true =>
            have hset : ∀ file, { (t.withFrames f).setFile k file with allocs := allocs } =
                ({ t.setFile k file with allocs := allocs } : Vfs).withFrames f := fun _ => rfl
            simp only [hset]
            rw [storeBytes_withFrames]
            simp only [Vfs.setFile, Function.update_self]

/-! ## The other operations -/

theorem ramfsAllocNode_withFrames (s : Vfs) (f : UInt64 → ℕ → UInt8) (name : Str)
    (flags : UInt32) : ramfsAllocNode (s.withFrames f) name flags =
      ((ramfsAllocNode s name flags).1, (ramfsAllocNode s name flags).2.withFrames f) := by
  have hcount : (s.withFrames f).ramfsNodeCount = s.ramfsNodeCount := rfl
  unfold ramfsAllocNode
  rw [hcount]
  by_cases hfull : s.ramfsNodeCount ≥ maxRamfsNodes
  · simp only [if_pos hfull]
  · simp only [if_neg hfull]
    rfl

theorem ramfsCreate_withFrames (s : Vfs) (f : UInt64 → ℕ → UInt8) (parent : ℕ) (name : Str)
    (flags : UInt32) : ramfsCreate (s.withFrames f) parent name flags =
      ((ramfsCreate s parent name flags).1, (ramfsCreate s parent name flags).2.withFrames f) := by
  have hnodes : (s.withFrames f).ramfsNodePool = s.ramfsNodePool := rfl
  have hdirs : (s.withFrames f).ramfsDataPool = s.ramfsDataPool := rfl
  simp only [ramfsCreate]
  rw [hnodes, hdirs, ramfsAllocNode_withFrames]
  by_cases hdir : (s.ramfsNodePool parent).isDir
  · simp only [not_not.mpr hdir, if_false]
    cases (s.ramfsNodePool parent).fsData with
    | null => rfl
    | file k => rfl
    | dir d =>
      simp only
      cases firstSome (fun i => if (s.ramfsDataPool d).children i = none then some i else none)
        ramfsMaxChildren 0 with
      | none => rfl
      | some slot =>
        simp only
        cases ramfsAllocNode s name flags with
        | mk index t =>
          cases index with
          | none => rfl
          | some index => rfl
  · simp only [if_pos hdir]

theorem ramfsMountOp_withFrames (s : Vfs) (f : UInt64 → ℕ → UInt8) (mp : ℕ) :
    ramfsMountOp (s.withFrames f) mp =
      ((ramfsMountOp s mp).1, (ramfsMountOp s mp).2.withFrames f) := by
  simp only [ramfsMountOp]
  rw [ramfsAllocNode_withFrames]
  cases ramfsAllocNode s [slash] vfsDirectory with
  | mk root t =>
    cases root with
    | none => rfl
    | some root => rfl

theorem alike_withFrames (s : Vfs) (f : UInt64 → ℕ → UInt8) :
    Alike s (s.withFrames f) fun _ => True where
  ops _ _ := rfl
  find _ _ _ := rfl
  follow _ _ _ _ _ := ⟨rfl, fun _ _ => trivial⟩

theorem vfsResolvePath_withFrames (s : Vfs) (f : UInt64 → ℕ → UInt8) (path : Str) :
    vfsResolvePath (s.withFrames f) path = vfsResolvePath s path :=
  (alike_withFrames s f).resolvePath rfl (fun _ _ => trivial) path

theorem createAt_withFrames {op : Vfs → ℕ → Str → ℤ × Vfs} {flags : UInt32}
    (hop : ∀ s parent name, op s parent name = ramfsCreate s parent name flags)
    (s : Vfs) (f : UInt64 → ℕ → UInt8) (path : Str) :
    createAt op (s.withFrames f) path =
      (createAt op s path).map fun out => (out.1, out.2.withFrames f) := by
  have hnodes : (s.withFrames f).ramfsNodePool = s.ramfsNodePool := rfl
  unfold createAt
  rw [vfsResolvePath_withFrames, hnodes]
  cases vfsResolvePath s (vfsDirname path) with
  | crash => rfl
  | null => rfl
  | node parent =>
    simp only
    cases (s.ramfsNodePool parent).ops with
    | none => rfl
    | some kind =>
      cases kind
      simp only [hop, ramfsCreate_withFrames, Option.map_some]

theorem openNode_withFrames (s : Vfs) (f : UInt64 → ℕ → UInt8) (node : ℕ) (flags : UInt32) :
    openNode (s.withFrames f) node flags =
      ((openNode s node flags).1, (openNode s node flags).2.withFrames f) := by
  have hfree : freeFd (s.withFrames f) = freeFd s := rfl
  unfold openNode
  rw [hfree]
  cases freeFd s with
  | none => rfl
  | some fd => rfl

theorem vfsOpen_withFrames (s : Vfs) (f : UInt64 → ℕ → UInt8) (path : Str) (flags : UInt32) :
    vfsOpen (s.withFrames f) path flags =
      (vfsOpen s path flags).map fun out => (out.1, out.2.withFrames f) := by
  unfold vfsOpen
  rw [vfsResolvePath_withFrames]
  cases vfsResolvePath s path with
  | crash => rfl
  | node node =>
    simp only [openNode_withFrames, Option.map_some]
  | null =>
    by_cases hcreat : flags &&& oCreat = 0
    · simp only [if_pos hcreat, Option.map_some]
    · have hmade := @createAt_withFrames (fun s parent name => ramfsCreate s parent name vfsFile)
        vfsFile (fun _ _ _ => rfl) s f path
      simp only [if_neg hcreat, vfsCreate, hmade]
      cases createAt (fun s parent name => ramfsCreate s parent name vfsFile) s path with
      | none => rfl
      | some out =>
        obtain ⟨r, t⟩ := out
        simp only [Option.map_some]
        by_cases hzero : r = 0
        · simp only [hzero, ne_eq, not_true_eq_false, if_false, vfsResolvePath_withFrames]
          cases vfsResolvePath t path with
          | crash => rfl
          | null => rfl
          | node node => simp only [openNode_withFrames, Option.map_some]
        · simp only [ne_eq, hzero, not_false_eq_true, if_true, Option.map_some]

theorem vfsMount_withFrames (s : Vfs) (f : UInt64 → ℕ → UInt8) (path fstype : Str) :
    vfsMount (s.withFrames f) path fstype =
      (vfsMount s path fstype).map fun out => (out.1, out.2.withFrames f) := by
  have hcount : (s.withFrames f).gMountCount = s.gMountCount := rfl
  have htypes : findFsType (s.withFrames f) fstype = findFsType s fstype := rfl
  have hset (i : ℕ) (mp : Mount) :
      (s.withFrames f).setMount i mp = (s.setMount i mp).withFrames f := rfl
  simp only [vfsMount]
  rw [hcount, htypes]
  by_cases hfull : s.gMountCount ≥ maxMounts
  · simp only [if_pos hfull, Option.map_some]
  · simp only [if_neg hfull]
    cases findFsType s fstype with
    | none => rfl
    | some fs =>
      obtain ⟨name, kind⟩ := fs
      cases kind
      simp only [hset, ramfsMountOp_withFrames]
      cases ramfsMountOp (s.setMount s.gMountCount ⟨path.take 255, none, 0⟩) s.gMountCount with
      | mk r t =>
        have hmounts : (t.withFrames f).gMounts = t.gMounts := rfl
        have hnodes : (t.withFrames f).ramfsNodePool = t.ramfsNodePool := rfl
        simp only [vfsResolvePath_withFrames]
        rw [hmounts, hnodes]
        by_cases hr : r ≠ 0
        · simp only [if_pos hr, Option.map_some]
        · simp only [if_neg hr]
          by_cases hslash : path = [slash]
          · simp only [if_pos hslash]
            cases (t.gMounts s.gMountCount).root with
            | none => rfl
            | some root => rfl
          · simp only [if_neg hslash]
            cases vfsResolvePath t path with
            | crash => rfl
            | null => rfl
            | node n =>
              by_cases hdir : (t.ramfsNodePool n).isDir
              · simp only [not_not.mpr hdir, if_false]
                rfl
              · simp only [if_pos hdir, Option.map_some]

/-! ## Calls -/

/-- The node and the offset that a transfer at a descriptor works on. -/
def transferAt (s : Vfs) (fd : ℤ) : Option ℕ × UInt64 :=
  match liveFd s fd with
  | none => (none, 0)
  | some (_, file) =>
    (file.node.filter fun n => (s.ramfsNodePool n).ops.isSome, file.offset)

/-- The bytes of the frames that a call hands to its caller. -/
def callLoads (s : Vfs) : VfsCall → List Cell
  | .read fd count => readCells s (transferAt s fd).1 (transferAt s fd).2 count.toUInt32
  | _ => []

/-- The bytes that a call stores in the frames. -/
def callStores (answers : ℕ → UInt64) (s : Vfs) : VfsCall → List (Cell × UInt8)
  | .write fd buffer count =>
    writeStores answers s (transferAt s fd).1 (transferAt s fd).2 count.toUInt32 buffer
  | _ => []

theorem filter_ops (s : Vfs) (n : ℕ) :
    (some n).filter (fun n => (s.ramfsNodePool n).ops.isSome) =
      (s.ramfsNodePool n).ops.map fun _ => n := by
  cases h : (s.ramfsNodePool n).ops with
  | none => simp [h]
  | some kind => simp [h]

theorem vfsRead_withFrames (s : Vfs) (f : UInt64 → ℕ → UInt8) (fd : ℤ) (count : UInt64) :
    vfsRead (s.withFrames f) fd count =
      (vfsRead s fd count).map fun out =>
        (out.1, (callLoads s (.read fd count)).map (memory f), out.2.2.withFrames f) := by
  have hlive : liveFd (s.withFrames f) fd = liveFd s fd := rfl
  have hnodes : (s.withFrames f).ramfsNodePool = s.ramfsNodePool := rfl
  simp only [vfsRead, callLoads, transferAt]
  rw [hlive, hnodes]
  cases liveFd s fd with
  | none => rfl
  | some live =>
    obtain ⟨i, node, offset, flags, refcount⟩ := live
    cases node with
    | none => rfl
    | some n =>
      simp only [Option.bind_some]
      rw [filter_ops]
      cases (s.ramfsNodePool n).ops with
      | none => rfl
      | some kind =>
        cases kind
        simp only [Option.map_some, ramfsRead_withFrames]
        cases ramfsRead s (some n) offset count.toUInt32 with
        | none => rfl
        | some out => rfl

theorem vfsWrite_withFrames (s : Vfs) (f : UInt64 → ℕ → UInt8) (fd : ℤ) (buffer : ℕ → UInt8)
    (count : UInt64) : vfsWrite answers (s.withFrames f) fd buffer count =
      (vfsWrite answers s fd buffer count).map fun out =>
        (out.1, out.2.withFrames
          (storeFrames f (callStores answers s (.write fd buffer count)))) := by
  have hlive : liveFd (s.withFrames f) fd = liveFd s fd := rfl
  have hnodes : (s.withFrames f).ramfsNodePool = s.ramfsNodePool := rfl
  simp only [vfsWrite, callStores, transferAt]
  rw [hlive, hnodes]
  cases liveFd s fd with
  | none => rfl
  | some live =>
    obtain ⟨i, node, offset, flags, refcount⟩ := live
    cases node with
    | none => rfl
    | some n =>
      simp only [Option.bind_some]
      rw [filter_ops]
      cases (s.ramfsNodePool n).ops with
      | none => rfl
      | some kind =>
        cases kind
        simp only [Option.map_some, ramfsWrite_withFrames]
        cases ramfsWrite answers s (some n) offset count.toUInt32 buffer with
        | none => rfl
        | some out => rfl

theorem vfsClose_withFrames (s : Vfs) (f : UInt64 → ℕ → UInt8) (fd : ℤ) :
    vfsClose (s.withFrames f) fd = ((vfsClose s fd).1, (vfsClose s fd).2.withFrames f) := by
  have hlive : liveFd (s.withFrames f) fd = liveFd s fd := rfl
  unfold vfsClose
  rw [hlive]
  cases liveFd s fd with
  | none => rfl
  | some live => rfl

theorem vfsSeek_withFrames (s : Vfs) (f : UInt64 → ℕ → UInt8) (fd : ℤ) (offset : UInt64)
    (whence : ℤ) : vfsSeek (s.withFrames f) fd offset whence =
      ((vfsSeek s fd offset whence).1, (vfsSeek s fd offset whence).2.withFrames f) := by
  have hlive : liveFd (s.withFrames f) fd = liveFd s fd := rfl
  unfold vfsSeek
  rw [hlive]
  cases liveFd s fd with
  | none => rfl
  | some live =>
    simp only
    split
    · rfl
    · split
      · rfl
      · split
        · cases live.2.node with
          | none => rfl
          | some n => rfl
        · rfl

theorem vfsReaddir_withFrames (s : Vfs) (f : UInt64 → ℕ → UInt8) (fd : ℤ) :
    vfsReaddir (s.withFrames f) fd =
      ((vfsReaddir s fd).1, (vfsReaddir s fd).2.1, (vfsReaddir s fd).2.2.withFrames f) := by
  have hlive : liveFd (s.withFrames f) fd = liveFd s fd := rfl
  have hnodes : (s.withFrames f).ramfsNodePool = s.ramfsNodePool := rfl
  have hfind (n : ℕ) (index : UInt32) :
      ramfsReaddir (s.withFrames f) n index = ramfsReaddir s n index := rfl
  simp only [vfsReaddir]
  rw [hlive, hnodes]
  cases liveFd s fd with
  | none => rfl
  | some live =>
    simp only [hfind]
    cases live.2.node.bind fun n => (s.ramfsNodePool n).ops.map fun kind => (kind, n) with
    | none => rfl
    | some found =>
      obtain ⟨kind, n⟩ := found
      cases kind
      simp only
      cases ramfsReaddir s n live.2.offset.toUInt32 with
      | none => rfl
      | some child => rfl

/-- A call takes the same course on any frames. -/
theorem vfsCall_withFrames (s : Vfs) (f : UInt64 → ℕ → UInt8) (c : VfsCall) :
    vfsCall answers (s.withFrames f) c =
      (vfsCall answers s c).map fun out =>
        (⟨out.1.value, (callLoads s c).map (memory f), out.1.entry⟩,
          out.2.withFrames (storeFrames f (callStores answers s c))) := by
  cases c with
  | mount path fstype =>
    simp only [vfsCall, vfsMount_withFrames, Option.map_map]
    rfl
  | mkdir path =>
    have hmade := @createAt_withFrames ramfsMkdirOp vfsDirectory (fun _ _ _ => rfl) s f path
    simp only [vfsCall, vfsMkdir, hmade, Option.map_map]
    rfl
  | create path =>
    have hmade := @createAt_withFrames (fun s parent name => ramfsCreate s parent name vfsFile)
      vfsFile (fun _ _ _ => rfl) s f path
    simp only [vfsCall, vfsCreate, hmade, Option.map_map]
    rfl
  | «open» path flags =>
    simp only [vfsCall, vfsOpen_withFrames, Option.map_map]
    rfl
  | close fd =>
    simp only [vfsCall, vfsClose_withFrames, Option.map_some]
    rfl
  | read fd count =>
    simp only [vfsCall, vfsRead_withFrames, Option.map_map]
    rfl
  | write fd buffer count =>
    simp only [vfsCall, vfsWrite_withFrames, Option.map_map]
    rfl
  | seek fd offset whence =>
    simp only [vfsCall, vfsSeek_withFrames, Option.map_some]
    rfl
  | readdir fd =>
    simp only [vfsCall, vfsReaddir_withFrames, Option.map_some]
    rfl

/-! ## Two executions -/

/-- The calls as steps of a machine that only copies the frames. -/
def vfsEffect (answers : ℕ → UInt64) (s : Vfs) (c : VfsCall) :
    Option (Effect Vfs Cell UInt8 (ℤ × Option Dirent)) :=
  (vfsCall answers s c).map fun out =>
    ⟨out.2, (out.1.value, out.1.entry), callLoads s c, callStores answers s c⟩

/-- The replies to a sequence of calls, up to a crash. -/
def replies (answers : ℕ → UInt64) : Vfs → List VfsCall → List (Option VfsReply)
  | _, [] => []
  | s, c :: cs =>
    match vfsCall answers s c with
    | none => [none]
    | some (reply, s') => some reply :: replies answers s' cs

/-- What the copying machine hands out, as the reply to a call. -/
def replyOf (out : (ℤ × Option Dirent) × List UInt8) : VfsReply := ⟨out.1.1, out.2, out.1.2⟩

theorem replyOf_injective : Function.Injective replyOf := by
  intro x y h
  obtain ⟨hvalue, hbytes, hentry⟩ := VfsReply.mk.inj h
  exact Prod.ext (Prod.ext hvalue hentry) hbytes

theorem replies_withFrames (s : Vfs) (f : UInt64 → ℕ → UInt8) (calls : List VfsCall) :
    replies answers (s.withFrames f) calls =
      (outputs (vfsEffect answers) s (memory f) calls).map (Option.map replyOf) := by
  induction calls generalizing s f with
  | nil => rfl
  | cons c calls ih =>
    simp only [replies, outputs, vfsEffect, vfsCall_withFrames]
    cases vfsCall answers s c with
    | none => rfl
    | some out =>
      simp only [Option.map_some, ih, memory_storeFrames, List.map_cons]
      rfl

/-- The frames that `pfa_alloc_low` hands out from a state on. -/
def handedOut (answers : ℕ → UInt64) (s : Vfs) : Set UInt64 :=
  {frame | frame ≠ 0 ∧ ∃ j, s.allocs ≤ j ∧ answers j = frame}

/-- Executions that differ only in the old contents of the frames handed out get the same
replies. -/
def SameReplies (answers : ℕ → UInt64) (s : Vfs) (calls : List VfsCall) : Prop :=
  ∀ f g : UInt64 → ℕ → UInt8, (∀ frame ∉ handedOut answers s, f frame = g frame) →
    replies answers (s.withFrames f) calls = replies answers (s.withFrames g) calls

/-- Every byte that a read of the run loads from a frame handed out was stored by an earlier
write of the run. -/
def ReadsWritten (answers : ℕ → UInt64) (s : Vfs) (calls : List VfsCall) : Prop :=
  LoadsKnown (vfsEffect answers) {c | c.1 ∉ handedOut answers s} s calls

theorem agree_memory_iff {s : Vfs} {f g : UInt64 → ℕ → UInt8} :
    Agree {c : Cell | c.1 ∉ handedOut answers s} (memory f) (memory g) ↔
      ∀ frame ∉ handedOut answers s, f frame = g frame := by
  constructor
  · intro h frame hframe
    funext i
    exact h (frame, i) hframe
  · intro h c hc
    exact congrFun (h c.1 hc) c.2

/-- The replies tell nothing about what the frames held before exactly when every byte that is
read was written. -/
theorem sameReplies_iff (answers : ℕ → UInt64) (s : Vfs) (calls : List VfsCall) :
    SameReplies answers s calls ↔ ReadsWritten answers s calls := by
  have hinj : Function.Injective (List.map (Option.map replyOf)) :=
    List.map_injective_iff.mpr (Option.map_injective replyOf_injective)
  have hbytes : Nontrivial UInt8 := ⟨0, 1, by decide⟩
  constructor
  · intro hsame
    apply (outputs_agree_iff (m := memory s.frames)).mp
    intro m hm
    have hm : Agree _ (memory s.frames) (memory fun frame i => m (frame, i)) := hm
    have hreplies := hsame _ _ (agree_memory_iff.mp hm)
    rw [replies_withFrames, replies_withFrames] at hreplies
    exact hinj hreplies
  · intro hknown f g hfg
    rw [replies_withFrames, replies_withFrames]
    congr 1
    exact outputs_of_agree hknown (agree_memory_iff.mpr hfg)

/-- One byte written behind a gap of five. -/
def gapCalls : List VfsCall :=
  [.mount (str "/") (str "ramfs"), .open (str "/a") oCreat, .seek 3 5 0, .write 3 (fun _ => 7) 1,
    .seek 3 0 0, .read 3 6]

/-- The gap reads as whatever the frame held before. -/
theorem gap_leftover : ¬ SameReplies (fun _ => 0x1000) (vfsInit fun _ _ => 0) gapCalls := by
  intro h
  have hout : ∀ frame ∉ handedOut (fun _ => 0x1000) (vfsInit fun _ _ => 0),
      (fun _ => 0 : ℕ → UInt8) = fun _ => if frame = 0x1000 then 1 else 0 := by
    intro frame hframe
    have hne : frame ≠ 0x1000 := by
      rintro rfl
      exact hframe ⟨by decide, 0, Nat.le_refl 0, rfl⟩
    simp only [if_neg hne]
  have hsame := congrArg (List.map (Option.map VfsReply.bytes))
    (h (fun _ _ => 0) (fun frame _ => if frame = 0x1000 then 1 else 0) hout)
  revert hsame
  decide +kernel

end Rhoudveine.Fs
