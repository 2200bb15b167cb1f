import Rhoudveine.Lib.LittleEndian

/-!
# The interrupt descriptor table and the interrupt controllers

`init_idt` and `exception_handlers_install` fill the table, and `pic_remap` programs the two
controllers.  Below them stands what the hardware makes of the bytes: the gate the processor
reads for a vector, and the vector a controller asks for.
-/

namespace Rhoudveine.X86
open LittleEndian

/-! ## The table -/

structure IdtEntry where
  offsetLo : UInt16
  selector : UInt16
  ist : UInt8
  typeAttr : UInt8
  offsetMid : UInt16
  offsetHi : UInt32
  zero : UInt32
  deriving DecidableEq

/-- The functions whose addresses are put into the table. -/
inductive Handler
  | isrDefaultHandler
  | isrIrq0
  | isrIrq1
  | excStub (n : Fin 22)
  deriving DecidableEq

/-- `set_idt_entry` and `exc_set_gate`, which have the same body. -/
def setIdtEntry (idt : ℕ → IdtEntry) (n : ℕ) (handler : UInt64) : ℕ → IdtEntry :=
  Function.update idt n
    { offsetLo := (handler &&& 0xFFFF).toUInt16
      selector := 0x08
      ist := 0
      typeAttr := 0x8E
      offsetMid := ((handler >>> 16) &&& 0xFFFF).toUInt16
      offsetHi := ((handler >>> 32) &&& 0xFFFFFFFF).toUInt32
      zero := 0 }

variable (addr : Handler → UInt64)

/-- The first loop of `init_idt`. -/
def defaultIdt (idt : ℕ → IdtEntry) : ℕ → IdtEntry :=
  (List.range 256).foldl (fun idt i => setIdtEntry idt i (addr .isrDefaultHandler)) idt

def initIdt (idt : ℕ → IdtEntry) : ℕ → IdtEntry :=
  setIdtEntry (setIdtEntry (defaultIdt addr idt) 32 (addr .isrIrq0)) 33 (addr .isrIrq1)

def exceptionHandlersInstall (idt : ℕ → IdtEntry) : ℕ → IdtEntry :=
  (List.finRange 22).foldl (fun idt (n : Fin 22) => setIdtEntry idt n (addr (.excStub n))) idt

/-- The table after both, in the order of `kernel_main`. -/
def kernelIdt (idt : ℕ → IdtEntry) : ℕ → IdtEntry :=
  exceptionHandlersInstall addr (initIdt addr idt)

/-- `idtr.limit`. -/
def idtLimit : ℕ := 16 * 256 - 1

/-- Which function serves a vector. -/
def handlerOf (n : ℕ) : Handler :=
  if h : n < 22 then .excStub ⟨n, h⟩
  else if n = 32 then .isrIrq0
  else if n = 33 then .isrIrq1
  else .isrDefaultHandler

/-! ## What the processor reads -/

/-- The bytes of a packed entry. -/
def IdtEntry.byte (e : IdtEntry) (k : ℕ) : UInt8 :=
  if k < 2 then leByte e.offsetLo.toNat k
  else if k < 4 then leByte e.selector.toNat (k - 2)
  else if k = 4 then e.ist
  else if k = 5 then e.typeAttr
  else if k < 8 then leByte e.offsetMid.toNat (k - 6)
  else if k < 12 then leByte e.offsetHi.toNat (k - 8)
  else leByte e.zero.toNat (k - 12)

/-- The bytes of the table, from its first one on. -/
def idtMemory (idt : ℕ → IdtEntry) (i : ℕ) : UInt8 := (idt (i / 16)).byte (i % 16)

structure Gate where
  offset : UInt64
  selector : ℕ
  ist : ℕ
  /-- The low four bits of the type, 14 for an interrupt gate. -/
  type : ℕ
  dpl : ℕ
  present : Bool
  deriving DecidableEq

/-- The 64-bit gate of a vector, as long as it lies inside the limit. -/
def gateAt (b : ℕ → UInt8) (limit n : ℕ) : Option Gate :=
  if 16 * n + 15 ≤ limit then
    some
      { offset := UInt64.ofNat
          (le b (16 * n) 2 + 2 ^ 16 * le b (16 * n + 6) 2 + 2 ^ 32 * le b (16 * n + 8) 4)
        selector := le b (16 * n + 2) 2
        ist := (b (16 * n + 4)).toNat % 8
        type := (b (16 * n + 5)).toNat % 16
        dpl := (b (16 * n + 5)).toNat / 32 % 4
        present := (b (16 * n + 5)).toNat / 128 = 1 }
  else none

/-- A present interrupt gate to kernel code on the stack in use. -/
def interruptGate (handler : UInt64) : Gate := ⟨handler, 0x08, 0, 14, 0, true⟩

variable {addr} {idt : ℕ → IdtEntry} {n : ℕ} {handler : UInt64}

theorem idtMemory_entry (idt : ℕ → IdtEntry) (n : ℕ) {k : ℕ} (hk : k < 16) :
    idtMemory idt (16 * n + k) = (idt n).byte k := by
  have hdiv : (16 * n + k) / 16 = n := by omega
  have hmod : (16 * n + k) % 16 = k := by omega
  simp [idtMemory, hdiv, hmod]

/-- A field of an entry is read back from the bytes of the table. -/
theorem le_idtMemory {i w v : ℕ} (hi : i + w ≤ 16)
    (h : ∀ k < w, (idt n).byte (i + k) = leByte v k) (hv : v < 256 ^ w) :
    le (idtMemory idt) (16 * n + i) w = v := by
  have hle : le (idtMemory idt) (16 * n + i) w = v % 256 ^ w := by
    apply le_leByte
    intro k hk
    rw [Nat.add_assoc, idtMemory_entry idt n (by omega)]
    exact h k hk
  rw [hle, Nat.mod_eq_of_lt hv]

/-- The three parts of an address are put together again. -/
theorem offset_parts (handler : UInt64) :
    (handler &&& 0xFFFF).toUInt16.toNat + 2 ^ 16 * ((handler >>> 16) &&& 0xFFFF).toUInt16.toNat +
      2 ^ 32 * ((handler >>> 32) &&& 0xFFFFFFFF).toUInt32.toNat = handler.toNat := by
  have hlo : (0xFFFF : UInt64).toNat = 2 ^ 16 - 1 := rfl
  have hhi : (0xFFFFFFFF : UInt64).toNat = 2 ^ 32 - 1 := rfl
  have h16 : (16 : UInt64).toNat % 64 = 16 := rfl
  have h32 : (32 : UInt64).toNat % 64 = 32 := rfl
  simp only [UInt64.toNat_toUInt16, UInt64.toNat_toUInt32, UInt64.toNat_and,
    UInt64.toNat_shiftRight, hlo, hhi, h16, h32, Nat.and_two_pow_sub_one_eq_mod,
    Nat.shiftRight_eq_div_pow]
  have := handler.toNat_lt
  omega

/-- An entry that was set is an interrupt gate to its handler. -/
theorem gateAt_of_set (hn : n < 256)
    (h : idt n = setIdtEntry idt n handler n) :
    gateAt (idtMemory idt) idtLimit n = some (interruptGate handler) := by
  rw [setIdtEntry, Function.update_self] at h
  have hlo : le (idtMemory idt) (16 * n + 0) 2 = (handler &&& 0xFFFF).toUInt16.toNat := by
    apply le_idtMemory (by norm_num)
    · intro k hk
      simp [h, IdtEntry.byte, hk]
    · exact UInt16.toNat_lt _
  have hselector : le (idtMemory idt) (16 * n + 2) 2 = 8 := by
    apply le_idtMemory (by norm_num)
    · intro k hk
      have h2 : ¬ 2 + k < 2 := by omega
      have h4 : 2 + k < 4 := by omega
      rw [h, IdtEntry.byte, if_neg h2, if_pos h4, Nat.add_sub_cancel_left]
      rfl
    · norm_num
  have hmid : le (idtMemory idt) (16 * n + 6) 2 =
      ((handler >>> 16) &&& 0xFFFF).toUInt16.toNat := by
    apply le_idtMemory (by norm_num)
    · intro k hk
      have h2 : ¬ 6 + k < 2 := by omega
      have h4 : ¬ 6 + k < 4 := by omega
      have h5 : 6 + k ≠ 4 ∧ 6 + k ≠ 5 := by omega
      have h8 : 6 + k < 8 := by omega
      simp [h, IdtEntry.byte, h2, h4, h5, h8]
    · exact UInt16.toNat_lt _
  have hhi : le (idtMemory idt) (16 * n + 8) 4 =
      ((handler >>> 32) &&& 0xFFFFFFFF).toUInt32.toNat := by
    apply le_idtMemory (by norm_num)
    · intro k hk
      have h2 : ¬ 8 + k < 2 := by omega
      have h4 : ¬ 8 + k < 4 := by omega
      have h5 : 8 + k ≠ 4 ∧ 8 + k ≠ 5 := by omega
      have h8 : ¬ 8 + k < 8 := by omega
      have h12 : 8 + k < 12 := by omega
      simp [h, IdtEntry.byte, h2, h4, h5, h12]
    · exact UInt32.toNat_lt _
  have hist : idtMemory idt (16 * n + 4) = 0 := by
    rw [idtMemory_entry idt n (by norm_num), h]
    rfl
  have htype : idtMemory idt (16 * n + 5) = 0x8E := by
    rw [idtMemory_entry idt n (by norm_num), h]
    rfl
  have hlimit : 16 * n + 15 ≤ idtLimit := by
    unfold idtLimit
    omega
  rw [Nat.add_zero] at hlo
  rw [gateAt, if_pos hlimit, hlo, hselector, hmid, hhi, hist, htype, offset_parts,
    UInt64.ofNat_toNat]
  rfl

/-! ## Filling the table -/

theorem setIdtEntry_self (idt idt' : ℕ → IdtEntry) (n : ℕ) (handler : UInt64) :
    setIdtEntry idt n handler n = setIdtEntry idt' n handler n := by
  simp [setIdtEntry]

theorem setIdtEntry_of_ne (idt : ℕ → IdtEntry) {k : ℕ} (handler : UInt64) (h : n ≠ k) :
    setIdtEntry idt k handler n = idt n := by
  simp [setIdtEntry, h]

/-- A loop over entries without repeats leaves each with its own handler, the others alone. -/
theorem foldl_setIdtEntry {ι : Type*} (entry : ι → ℕ) (handler : ι → UInt64) {is : List ι}
    (hnodup : (is.map entry).Nodup) (idt : ℕ → IdtEntry) :
    (∀ i ∈ is, is.foldl (fun idt i => setIdtEntry idt (entry i) (handler i)) idt (entry i) =
        setIdtEntry idt (entry i) (handler i) (entry i)) ∧
      ∀ n ∉ is.map entry,
        is.foldl (fun idt i => setIdtEntry idt (entry i) (handler i)) idt n = idt n := by
  induction is generalizing idt with
  | nil => simp
  | cons i is ih =>
    obtain ⟨hnot, hnodup⟩ := List.nodup_cons.mp hnodup
    obtain ⟨hset, hkeep⟩ := ih hnodup (setIdtEntry idt (entry i) (handler i))
    constructor
    · intro j hj
      rw [List.foldl_cons]
      rcases List.mem_cons.mp hj with rfl | hj
      · exact hkeep _ hnot
      · rw [hset j hj]
        exact setIdtEntry_self ..
    · intro n hn
      rw [List.map_cons, List.mem_cons, not_or] at hn
      rw [List.foldl_cons, hkeep n hn.2]
      exact setIdtEntry_of_ne idt _ hn.1

theorem defaultIdt_entry (addr : Handler → UInt64) (idt : ℕ → IdtEntry) (hn : n < 256) :
    defaultIdt addr idt n = setIdtEntry idt n (addr .isrDefaultHandler) n := by
  have hnodup : ((List.range 256).map id).Nodup := by
    rw [List.map_id]
    exact List.nodup_range
  have hset := (foldl_setIdtEntry id (fun _ => addr .isrDefaultHandler) hnodup idt).1
  exact hset n (List.mem_range.mpr hn)

/-- Every vector of the finished table has the handler it should have. -/
theorem kernelIdt_entry (addr : Handler → UInt64) (idt : ℕ → IdtEntry) (hn : n < 256) :
    kernelIdt addr idt n = setIdtEntry idt n (addr (handlerOf n)) n := by
  have hnodup : ((List.finRange 22).map Fin.val).Nodup :=
    (List.nodup_finRange 22).map Fin.val_injective
  obtain ⟨hset, hkeep⟩ := foldl_setIdtEntry Fin.val (fun i => addr (.excStub i)) hnodup
    (initIdt addr idt)
  rw [kernelIdt, exceptionHandlersInstall]
  by_cases hexc : n < 22
  · have hentry := hset ⟨n, hexc⟩ (List.mem_finRange _)
    rw [handlerOf, dif_pos hexc]
    rw [hentry]
    simp [setIdtEntry]
  · -- the second pass leaves the other vectors as `init_idt` has set them
    have hnot : n ∉ (List.finRange 22).map Fin.val := by
      intro hmem
      obtain ⟨i, -, rfl⟩ := List.mem_map.mp hmem
      exact hexc i.isLt
    rw [handlerOf, dif_neg hexc, hkeep n hnot, initIdt]
    split_ifs with h32 h33
    · subst h32
      rw [setIdtEntry_of_ne _ _ (by norm_num)]
      simp [setIdtEntry]
    · subst h33
      simp [setIdtEntry]
    · rw [setIdtEntry_of_ne _ _ h33, setIdtEntry_of_ne _ _ h32, defaultIdt_entry addr idt hn]

/-- The processor finds an interrupt gate to the right function for every vector. -/
theorem gateAt_kernelIdt (addr : Handler → UInt64) (idt : ℕ → IdtEntry) (hn : n < 256) :
    gateAt (idtMemory (kernelIdt addr idt)) idtLimit n =
      some (interruptGate (addr (handlerOf n))) := by
  apply gateAt_of_set hn
  rw [kernelIdt_entry addr idt hn]
  exact setIdtEntry_self ..

/-! ## The interrupt controllers -/

/-- What an 8259A expects next on its data port. -/
inductive PicStage
  | vectors
  | cascade
  | mode
  | operating
  deriving DecidableEq

/-- One 8259A: the first command word, what the others have set, and the mask. -/
structure Pic where
  icw1 : UInt8
  stage : PicStage
  base : UInt8
  cascade : UInt8
  mode : UInt8
  mask : UInt8
  deriving DecidableEq

namespace Pic

/-- A write to the command port: a word with bit 4 starts the initialisation. -/
def command (p : Pic) (v : UInt8) : Pic :=
  if v &&& 0x10 = 0 then p else { p with icw1 := v, stage := .vectors, mask := 0 }

/-- Whether the fourth command word follows. -/
def wantsMode (p : Pic) : PicStage := if p.icw1 &&& 1 = 0 then .operating else .mode

/-- A write to the data port. -/
def data (p : Pic) (v : UInt8) : Pic :=
  match p.stage with
  | .vectors =>
    { p with base := v &&& 0xF8, stage := if p.icw1 &&& 2 = 0 then .cascade else p.wantsMode }
  | .cascade => { p with cascade := v, stage := p.wantsMode }
  | .mode => { p with mode := v, stage := .operating }
  | .operating => { p with mask := v }

/-- The controller is initialised for an 8086 and lets the line through. -/
def passes (p : Pic) (line : Fin 8) : Bool :=
  p.stage = .operating && p.mode &&& 1 = 1 && !p.mask.toNat.testBit line

end Pic

/-- The two controllers, the second behind line 2 of the first. -/
structure Pics where
  master : Pic
  slave : Pic
  deriving DecidableEq

def Pics.outb (p : Pics) (port : UInt16) (v : UInt8) : Pics :=
  if port = 0x20 then { p with master := p.master.command v }
  else if port = 0x21 then { p with master := p.master.data v }
  else if port = 0xA0 then { p with slave := p.slave.command v }
  else if port = 0xA1 then { p with slave := p.slave.data v }
  else p

theorem slave_lt {line : Fin 16} (h : ¬ line.val < 8) : line.val - 8 < 8 := by omega

theorem cascade_lt : 2 < 8 := by decide

/-- The vector that the processor gets for an interrupt line. -/
def Pics.vector (p : Pics) (line : Fin 16) : Option ℕ :=
  if h : line.val < 8 then
    if p.master.passes ⟨line, h⟩ then some (p.master.base.toNat + line) else none
  -- the second controller asks through line 2 of the first one
  else if p.slave.passes ⟨line - 8, slave_lt h⟩ && p.master.passes ⟨2, cascade_lt⟩ &&
      p.master.cascade.toNat.testBit 2 && p.slave.cascade = 2 then
    some (p.slave.base.toNat + (line - 8))
  else none

/-- The writes of `pic_remap`. -/
def picRemapWrites : List (UInt16 × UInt8) :=
  [(0x20, 0x11), (0xA0, 0x11), (0x21, 0x20), (0xA1, 0x28), (0x21, 0x04), (0xA1, 0x02),
    (0x21, 0x01), (0xA1, 0x01),
    (0x21, (0xFF : UInt8) &&& ~~~((1 : UInt8) <<< 0) &&& ~~~((1 : UInt8) <<< 1)), (0xA1, 0xFF)]

def picRemap (p : Pics) : Pics := picRemapWrites.foldl (fun p w => p.outb w.1 w.2) p

/-- Four command words and the mask, whatever the controller was doing before. -/
theorem Pic.init (p : Pic) (base cascade mask : UInt8) :
    ((((p.command 0x11).data base).data cascade).data 0x01).data mask =
      ⟨0x11, .operating, base &&& 0xF8, cascade, 0x01, mask⟩ := by
  have hinit : ¬ (0x11 : UInt8) &&& 0x10 = 0 := by decide
  have hcascade : (0x11 : UInt8) &&& 2 = 0 := by decide
  have hmode : ¬ (0x11 : UInt8) &&& 1 = 0 := by decide
  simp only [command, data, wantsMode, if_neg hinit, if_pos hcascade, if_neg hmode]

/-- The initialisation does not depend on what the controllers were set to before. -/
theorem picRemap_eq (p : Pics) : picRemap p =
    ⟨⟨0x11, .operating, 0x20, 0x04, 0x01, 0xFC⟩, ⟨0x11, .operating, 0x28, 0x02, 0x01, 0xFF⟩⟩ := by
  simp [picRemap, picRemapWrites, Pics.outb, Pic.init]
  decide

theorem vector_picRemap (p : Pics) (line : Fin 16) :
    (picRemap p).vector line = if line.val < 2 then some (32 + line.val) else none := by
  rw [picRemap_eq]
  revert line
  decide

/-- After the initialisation the timer and the keyboard arrive at their stubs and no other line
arrives, every exception has its stub, and the rest of the vectors the default handler. -/
theorem init_idt_routes (addr : Handler → UInt64) (idt : ℕ → IdtEntry) (p : Pics) :
    (∀ line, ((picRemap p).vector line).bind
        (gateAt (idtMemory (kernelIdt addr idt)) idtLimit) =
      if line = 0 then some (interruptGate (addr .isrIrq0))
      else if line = 1 then some (interruptGate (addr .isrIrq1))
      else none) ∧
    (∀ n : Fin 22, gateAt (idtMemory (kernelIdt addr idt)) idtLimit n =
      some (interruptGate (addr (.excStub n)))) ∧
    (∀ n, 22 ≤ n → n < 256 → n ≠ 32 → n ≠ 33 →
      gateAt (idtMemory (kernelIdt addr idt)) idtLimit n =
        some (interruptGate (addr .isrDefaultHandler))) ∧
    ∀ n, 256 ≤ n → gateAt (idtMemory (kernelIdt addr idt)) idtLimit n = none := by
  refine ⟨fun line => ?_, fun n => ?_, fun n hlo hhi h32 h33 => ?_, fun n hn => ?_⟩
  · rw [vector_picRemap]
    by_cases hline : line.val < 2
    · -- lines 0 and 1 ask for vectors 32 and 33
      rw [if_pos hline, Option.bind_some, gateAt_kernelIdt addr idt (by omega)]
      have hcases : line = 0 ∨ line = 1 := by
        simp only [Fin.ext_iff]
        omega
      rcases hcases with rfl | rfl
      · rfl
      · rfl
    · have h0 : line ≠ 0 := by
        rintro rfl
        exact hline (by decide)
      have h1 : line ≠ 1 := by
        rintro rfl
        exact hline (by decide)
      simp [hline, h0, h1]
  · rw [gateAt_kernelIdt addr idt (by omega), handlerOf, dif_pos n.isLt]
  · rw [gateAt_kernelIdt addr idt hhi, handlerOf, dif_neg (by omega), if_neg h32, if_neg h33]
  · have hlimit : ¬ 16 * n + 15 ≤ idtLimit := by
      unfold idtLimit
      omega
    rw [gateAt, if_neg hlimit]

end Rhoudveine.X86
