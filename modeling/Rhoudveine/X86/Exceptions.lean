import Rhoudveine.Lib.X86
import Rhoudveine.X86.Idt
import Rhoudveine.Core.Kprintf

/-!
# Processor exceptions

The stubs for vectors 0 to 21, the code they share, and the report of `exc_handler_c`.
-/

namespace Rhoudveine.X86
open Fs (Str str)
open Rhoudveine.Core (Arg Framebuffer Output formatKinds)

/-! ## The code -/

/-- The instructions of the stubs. -/
inductive ExcInstr
  | base (i : Instr)
  /-- `pushq $imm`. -/
  | pushImm (imm : Word)
  /-- `movq src, dst`. -/
  | movReg (dst src : Reg)
  /-- `andq $imm, dst`. -/
  | andReg (dst : Reg) (imm : Word)
  | hlt
  deriving DecidableEq, Repr

def excStep (callee : Machine → Machine) (m : Machine) : ExcInstr → Machine
  | .base i => step callee m i
  | .pushImm imm => m.pushWord imm
  | .movReg dst src => m.setReg dst (m.reg src)
  | .andReg dst imm => m.setReg dst (m.reg dst &&& imm)
  | .hlt => m

def execExc (callee : Machine → Machine) (code : List ExcInstr) (m : Machine) : Machine :=
  code.foldl (excStep callee) m

/-- The registers in the order `exc_common` pushes them. -/
def excRegs : List Reg :=
  [.rax, .rbx, .rcx, .rdx, .rsi, .rdi, .rbp, .r8, .r9, .r10, .r11, .r12, .r13, .r14, .r15]

/-- `exc_common` up to its call. -/
def excSave : List ExcInstr :=
  excRegs.map (fun r => .base (.push r)) ++ [.movReg .rdi .rsp, .andReg .rsp (-16)]

def excCommon : List ExcInstr := excSave ++ [.base .call, .hlt]

/-- The vectors with `STUB_ERR`. -/
def stubErr : List ℕ := [8, 10, 11, 12, 13, 14, 17, 21]

/-- What the stub of a vector pushes. -/
def excNumber (n : Fin 22) : List ExcInstr :=
  if n.val ∈ stubErr then [.pushImm (BitVec.ofNat 64 n)]
  else [.pushImm 0, .pushImm (BitVec.ofNat 64 n)]

def excStub (n : Fin 22) : List ExcInstr := excNumber n ++ excCommon

/-- `exc_frame_t`. -/
structure ExcFrame where
  (r15 r14 r13 r12 r11 r10 r9 r8 : Word)
  (rbp rdi rsi rdx rcx rbx rax : Word)
  vector : Word
  errorCode : Word
  (rip cs rflags rsp ss : Word)

/-- The quadwords of a frame in the order of its fields. -/
def ExcFrame.ofWords (w : ℕ → Word) : ExcFrame :=
  ⟨w 0, w 1, w 2, w 3, w 4, w 5, w 6, w 7, w 8, w 9, w 10, w 11, w 12, w 13, w 14, w 15, w 16, w 17,
    w 18, w 19, w 20, w 21⟩

/-- The frame at an address. -/
def ExcFrame.read (mem : Word → Word) (p : Word) : ExcFrame :=
  .ofWords fun k => mem (p + 8 * BitVec.ofNat 64 k)

def excNames : List Str :=
  [str "#DE Divide Error", str "#DB Debug", str "#NMI", str "#BP Breakpoint", str "#OF Overflow",
    str "#BR BOUND Exceeded", str "#UD Invalid Opcode", str "#NM Device Not Available",
    str "#DF Double Fault", str "#09 Coprocessor Overrun", str "#TS Invalid TSS",
    str "#NP Segment Not Present", str "#SS Stack Fault", str "#GP General Protection",
    str "#PF Page Fault", str "#15 Reserved", str "#MF x87 FP Error", str "#AC Alignment Check",
    str "#MC Machine Check", str "#XF SIMD FP", str "#VE Virtualization",
    str "#CP Control Protection"]

/-- The calls that print. -/
inductive Print
  | puts (s : Str)
  | kprintf (format : Str) (color : UInt32) (args : List Arg)

private def ulong (w : Word) : Arg := .ulong ⟨w⟩

/-- The lines that only a page fault has. -/
def pageFaultLines (errorCode cr2 : Word) : List Print :=
  [.kprintf (str "Fault addr (CR2): 0x%lx\n") 0xFF6666 [ulong cr2],
    .kprintf (str "Reason: %s | %s | %s | %s\n") 0xFF6666
      [.str (if errorCode &&& 1 ≠ 0 then str "protection" else str "not-present"),
        .str (if errorCode &&& 2 ≠ 0 then str "write" else str "read"),
        .str (if errorCode &&& 4 ≠ 0 then str "user-mode" else str "kernel-mode"),
        .str (if errorCode &&& 16 ≠ 0 then str "ifetch" else str "data")]]

/-- What `exc_handler_c` prints before it halts. -/
def excHandlerC (f : ExcFrame) (cr2 : Word) : List Print :=
  let vec : UInt32 := ⟨f.vector.setWidth 32⟩
  let name := if vec < 22 then excNames.getD vec.toNat [] else str "Unknown"
  [.puts (str "\n\n*** CPU EXCEPTION ***\n"),
    .kprintf (str "Vector %u: %s\n") 0xFF4444 [.uint vec, .str name],
    .kprintf (str "Error code : 0x%lx\n") 0xFF4444 [ulong f.errorCode],
    .kprintf (str "RIP        : 0x%lx\n") 0xFF4444 [ulong f.rip],
    .kprintf (str "CS         : 0x%lx  RPL=%u\n") 0xFF4444
      [ulong f.cs, .uint ⟨(f.cs &&& 3).setWidth 32⟩],
    .kprintf (str "RSP        : 0x%lx\n") 0xFF4444 [ulong f.rsp],
    .kprintf (str "RFLAGS     : 0x%lx\n") 0xFF4444 [ulong f.rflags],
    .kprintf (str "RAX=0x%lx  RBX=0x%lx\n") 0xFFAAAA [ulong f.rax, ulong f.rbx],
    .kprintf (str "RCX=0x%lx  RDX=0x%lx\n") 0xFFAAAA [ulong f.rcx, ulong f.rdx],
    .kprintf (str "RSI=0x%lx  RDI=0x%lx\n") 0xFFAAAA [ulong f.rsi, ulong f.rdi],
    .kprintf (str "RBP=0x%lx\n") 0xFFAAAA [ulong f.rbp]] ++
  (if vec = 14 then pageFaultLines f.errorCode cr2 else []) ++
  (if vec = 13 then
    [.puts (str "Tip: #GP at RIP above " ++ [0xE2, 0x80, 0x94] ++
      str " check segment, alignment, or bad MSR\n")] else []) ++
  [.puts (str "\nSystem halted. Reset to reboot.\n")]

/-- `fb_puts`. -/
def fbPuts (fb : Framebuffer) (gallantData : ℕ → UInt8) (o : Output) (s : Str) : Output :=
  if o.console.nvecSuppress then o.serialWrite s
  else
    let o' := Output.kprint fb gallantData
      { o with console := { o.console with suppressFb := false } } s 0xFFFFFFFF
    { o' with console := { o'.console with suppressFb := o.console.suppressFb } }

def Print.run (fb : Framebuffer) (gallantData : ℕ → UInt8) (o : Output) : Print → Option Output
  | .puts s => some (fbPuts fb gallantData o s)
  | .kprintf format color args => o.kprintf fb gallantData format color args

def runPrints (fb : Framebuffer) (gallantData : ℕ → UInt8) : Output → List Print → Option Output
  | o, [] => some o
  | o, p :: ps => (p.run fb gallantData o).bind fun o => runPrints fb gallantData o ps

/-! ## What the processor does -/

/-- The vectors for which the processor pushes an error code after the frame. -/
def pushesErrorCode (n : ℕ) : Bool := n = 8 || (10 ≤ n && n ≤ 14) || n = 17 || n = 21

/-- The machine at the first instruction of the handler. -/
def deliverException (n : Fin 22) (errorCode : Word) (c : Context) (top : Word)
    (mem : Word → Word) : Machine :=
  let m := deliver c top mem
  if pushesErrorCode n then m.pushWord errorCode else m

/-- An exception through the table; `none` where its gate is no present interrupt gate. -/
def raise (code : UInt64 → List ExcInstr) (idt : ℕ → UInt8) (callee : Machine → Machine)
    (n : Fin 22) (errorCode : Word) (c : Context) (top : Word) (mem : Word → Word) :
    Option Machine :=
  match gateAt idt idtLimit n with
  | none => none
  | some gate =>
    if gate.present ∧ gate.type = 14 then
      some (execExc callee (code gate.offset) (deliverException n errorCode c top mem))
    else none

/-- The frame that tells the truth about an interrupted context. -/
def ExcFrame.of (c : Context) (vector errorCode : Word) : ExcFrame where
  r15 := c.reg .r15
  r14 := c.reg .r14
  r13 := c.reg .r13
  r12 := c.reg .r12
  r11 := c.reg .r11
  r10 := c.reg .r10
  r9 := c.reg .r9
  r8 := c.reg .r8
  rbp := c.reg .rbp
  rdi := c.reg .rdi
  rsi := c.reg .rsi
  rdx := c.reg .rdx
  rcx := c.reg .rcx
  rbx := c.reg .rbx
  rax := c.reg .rax
  vector := vector
  errorCode := errorCode
  rip := c.rip
  cs := c.cs
  rflags := c.rflags
  rsp := c.reg .rsp
  ss := c.ss

/-! ## The stack of a stub -/

variable {callee : Machine → Machine} {m : Machine} {vs : List Word}

theorem execExc_append (callee : Machine → Machine) (code code' : List ExcInstr) (m : Machine) :
    execExc callee (code ++ code') m = execExc callee code' (execExc callee code m) :=
  List.foldl_append

theorem execExc_pushes (callee : Machine → Machine) (rs : List Reg) (m : Machine) :
    execExc callee (rs.map fun r => .base (.push r)) m = exec callee (rs.map .push) m := by
  simp [execExc, exec, List.foldl_map, excStep]

theorem exec_pushes_rflags (callee : Machine → Machine) (rs : List Reg) (m : Machine) :
    (exec callee (rs.map .push) m).rflags = m.rflags := by
  induction rs generalizing m with
  | nil => rfl
  | cons r rs ih => exact ih (m.pushWord (m.reg r))

/-- A machine that has left everything but the stack pointer as it was interrupted, with `vs` on
the stack and interrupts masked. -/
structure Suspended (c : Context) (vs : List Word) (m : Machine) : Prop where
  stack : Stack m.mem (m.reg .rsp) vs
  reg : ∀ r, r ≠ .rsp → m.reg r = c.reg r
  masked : m.rflags = c.rflags &&& ~~~interruptFlag

theorem Suspended.pushWord {c : Context} (h : Suspended c vs m) (hlen : vs.length < 2 ^ 60)
    (v : Word) : Suspended c (v :: vs) (m.pushWord v) where
  stack := h.stack.pushWord hlen v
  reg r hr := (m.pushWord_of_ne v hr).trans (h.reg r hr)
  masked := h.masked

theorem deliver_suspended (c : Context) (top : Word) (mem : Word → Word) :
    Suspended c c.frame (deliver c top mem) where
  stack := deliver_stack c top mem
  reg _ hr := deliver_reg c top mem hr
  masked := rfl

/-- The error code of the processor, or the zero that the stub pushes in its place. -/
def shownError (n : Fin 22) (errorCode : Word) : Word := if pushesErrorCode n then errorCode else 0

/-- The stubs push a zero exactly where the processor pushes nothing. -/
theorem mem_stubErr_iff (n : Fin 22) : n.val ∈ stubErr ↔ pushesErrorCode n = true := by
  revert n
  decide

theorem excNumber_suspended (callee : Machine → Machine) (n : Fin 22) (errorCode : Word)
    (c : Context) (top : Word) (mem : Word → Word) :
    Suspended c (BitVec.ofNat 64 n :: shownError n errorCode :: c.frame)
      (execExc callee (excNumber n) (deliverException n errorCode c top mem)) := by
  have hframe := deliver_suspended c top mem
  unfold excNumber deliverException shownError
  by_cases hcode : pushesErrorCode n = true
  · simp only [if_pos ((mem_stubErr_iff n).mpr hcode), if_pos hcode]
    exact (hframe.pushWord (by simp [Context.frame]) errorCode).pushWord
      (by simp [Context.frame]) _
  · simp only [if_neg fun h => hcode ((mem_stubErr_iff n).mp h), if_neg hcode]
    exact (hframe.pushWord (by simp [Context.frame]) 0).pushWord (by simp [Context.frame]) _

theorem rsp_not_excRegs : Reg.rsp ∉ excRegs := by decide

variable (callee) in
/-- What `exc_common` hands to `exc_handler_c`. -/
theorem excSave_suspended {c : Context} (h : Suspended c vs m) (hlen : vs.length + 15 < 2 ^ 60) :
    Stack (execExc callee excSave m).mem ((execExc callee excSave m).reg .rdi)
        ((excRegs.map c.reg).reverse ++ vs) ∧
      (execExc callee excSave m).reg .rsp &&& 15 = 0 ∧
      (execExc callee excSave m).rflags = c.rflags &&& ~~~interruptFlag := by
  obtain ⟨hstack, -⟩ := exec_pushes callee excRegs rsp_not_excRegs h.stack hlen
  have hsaved : excRegs.map m.reg = excRegs.map c.reg := by
    apply List.map_congr_left
    intro r hr
    apply h.reg
    rintro rfl
    exact rsp_not_excRegs hr
  have hflags := exec_pushes_rflags callee excRegs m
  rw [hsaved] at hstack
  rw [excSave, execExc_append, execExc_pushes]
  generalize exec callee (excRegs.map .push) m = m' at hstack hflags
  have hne : Reg.rdi ≠ .rsp := by decide
  refine ⟨?_, ?_, hflags.trans h.masked⟩
  · simp only [execExc, List.foldl_cons, List.foldl_nil, excStep, Machine.setReg_mem,
      Machine.setReg_of_ne _ _ hne, Machine.setReg_self]
    exact hstack
  · -- rounding down to a multiple of 16 clears the low four bits
    have hmask : (-16 : Word) &&& 15 = 0 := by decide
    simp only [execExc, List.foldl_cons, List.foldl_nil, excStep, Machine.setReg_self]
    rw [BitVec.and_assoc, hmask]
    simp

theorem ExcFrame.ofWords_congr {w w' : ℕ → Word} (h : ∀ k < 22, w k = w' k) :
    ExcFrame.ofWords w = ExcFrame.ofWords w' := by
  simp [ofWords, h]

/-- Nothing in front of the call depends on the function that is called. -/
theorem execExc_stub (callee : Machine → Machine) (n : Fin 22) (m : Machine) :
    execExc callee (excStub n) m = callee (execExc id (excNumber n ++ excSave) m) := by
  have hnumber : execExc callee (excNumber n) m = execExc id (excNumber n) m := by
    unfold excNumber
    split <;> rfl
  have hsave (m : Machine) : execExc callee excSave m = execExc id excSave m := rfl
  rw [excStub, excCommon, execExc_append, execExc_append, execExc_append, hnumber, hsave]
  rfl

/-- The frame is read off the stack. -/
theorem ExcFrame.read_eq {mem : Word → Word} {p : Word} {c : Context} {vector errorCode : Word}
    (h : Stack mem p ((excRegs.map c.reg).reverse ++ (vector :: errorCode :: c.frame))) :
    ExcFrame.read mem p = ExcFrame.of c vector errorCode := by
  have hwords : ExcFrame.read mem p = .ofWords fun k =>
      ((excRegs.map c.reg).reverse ++ (vector :: errorCode :: c.frame)).getD k 0 := by
    apply ofWords_congr
    intro k hk
    have hlen : k < ((excRegs.map c.reg).reverse ++ (vector :: errorCode :: c.frame)).length := by
      simpa [excRegs, Context.frame] using hk
    rw [h.getElem hlen, List.getD_eq_getElem _ _ hlen]
  rw [hwords]
  rfl

/-! ## The report -/

/-- A call whose arguments are of the types that its format takes. -/
def Print.Typed : Print → Prop
  | .puts _ => True
  | .kprintf format _ args =>
    ¬ str "%" <:+ format ∧ ¬ str "%l" <:+ format ∧ formatKinds format = args.map Arg.kind

theorem pageFaultLines_typed (errorCode cr2 : Word) :
    ∀ p ∈ pageFaultLines errorCode cr2, p.Typed := by
  simp only [pageFaultLines, List.forall_mem_cons, Print.Typed, List.map_cons, List.map_nil,
    Arg.kind, ulong, List.not_mem_nil, false_implies, implies_true]
  decide +kernel

theorem excHandlerC_typed (f : ExcFrame) (cr2 : Word) : ∀ p ∈ excHandlerC f cr2, p.Typed := by
  intro p hp
  simp only [excHandlerC, List.mem_append] at hp
  rcases hp with ((hp | hp) | hp) | hp
  · revert p
    simp only [List.forall_mem_cons, Print.Typed, List.map_cons, List.map_nil, Arg.kind, ulong,
      List.not_mem_nil, false_implies, implies_true]
    decide +kernel
  · split at hp
    · exact pageFaultLines_typed _ _ p hp
    · cases hp
  · split at hp
    · rw [List.mem_singleton.mp hp]
      trivial
    · cases hp
  · rw [List.mem_singleton.mp hp]
    trivial

/-- A call with the right arguments comes to its end. -/
theorem Print.Typed.run {p : Print} (h : p.Typed) (fb : Framebuffer) (gallantData : ℕ → UInt8)
    (o : Output) : ∃ o', p.run fb gallantData o = some o' := by
  cases p with
  | puts s => exact ⟨_, rfl⟩
  | kprintf format color args =>
    obtain ⟨hend, hlong, hargs⟩ := h
    have hprefix : formatKinds format <+: args.map Arg.kind := by rw [hargs]
    -- the two loops come to their end side by side, so each of them does
    have hshown : Output.Twin o
        { o with console := { o.console with nvecSuppress := false } } := ⟨rfl, rfl⟩
    obtain ⟨q, -, hserial, -⟩ := hshown.loop fb gallantData color hend hlong hprefix
    cases hsuppress : o.console.nvecSuppress with
    | true =>
      refine ⟨q, ?_⟩
      rw [Print.run, Output.kprintf, if_pos hsuppress, hserial]
    | false =>
      have hself : Output.Twin o o := ⟨rfl, hsuppress⟩
      obtain ⟨-, q', -, hconsole, -⟩ := hself.loop fb gallantData color hend hlong hprefix
      refine ⟨q', ?_⟩
      rw [Print.run, Output.kprintf, if_neg (by simp [hsuppress]), hconsole]

theorem runPrints_typed {ps : List Print} (h : ∀ p ∈ ps, p.Typed) (fb : Framebuffer)
    (gallantData : ℕ → UInt8) (o : Output) : ∃ o', runPrints fb gallantData o ps = some o' := by
  induction ps generalizing o with
  | nil => exact ⟨o, rfl⟩
  | cons p ps ih =>
    obtain ⟨o', hp⟩ := (h p List.mem_cons_self).run fb gallantData o
    obtain ⟨o'', hps⟩ := ih (fun q hq => h q (List.mem_cons_of_mem _ hq)) o'
    refine ⟨o'', ?_⟩
    rw [runPrints, hp, Option.bind_some, hps]

/-- An exception in any context, through the table that the kernel has set up: `exc_handler_c` is
called once, on an aligned stack with interrupts masked, with a frame that shows the registers of
the interrupted code, the vector and the error code, and its report comes to the end. -/
theorem exception_reported {addr : Handler → UInt64} {code : UInt64 → List ExcInstr}
    (hcode : ∀ n, code (addr (.excStub n)) = excStub n) (idt : ℕ → IdtEntry) (n : Fin 22)
    (errorCode : Word) (c : Context) (top : Word) (mem : Word → Word) :
    ∃ m : Machine,
      (∀ callee, raise code (idtMemory (kernelIdt addr idt)) callee n errorCode c top mem =
        some (callee m)) ∧
      ExcFrame.read m.mem (m.reg .rdi) =
        .of c (BitVec.ofNat 64 n) (if pushesErrorCode n then errorCode else 0) ∧
      m.reg .rsp &&& 15 = 0 ∧ m.rflags &&& interruptFlag = 0 ∧
      ∀ fb gallantData o cr2, ∃ o', runPrints fb gallantData o
        (excHandlerC (ExcFrame.read m.mem (m.reg .rdi)) cr2) = some o' := by
  have hentry := excNumber_suspended id n errorCode c top mem
  obtain ⟨hstack, haligned, hflags⟩ := excSave_suspended id hentry
    (by simp [Context.frame])
  refine ⟨execExc id (excNumber n ++ excSave) (deliverException n errorCode c top mem),
    fun callee => ?_, ?_, ?_, ?_, fun fb gallantData o cr2 => ?_⟩
  · rw [raise, gateAt_kernelIdt addr idt (by omega), handlerOf, dif_pos n.isLt]
    simp [interruptGate, hcode, execExc_stub]
  · rw [execExc_append]
    exact ExcFrame.read_eq hstack
  · rw [execExc_append]
    exact haligned
  · have hmasked : ~~~interruptFlag &&& interruptFlag = 0 := by decide
    rw [execExc_append, hflags, BitVec.and_assoc, hmasked]
    simp
  · exact runPrints_typed (excHandlerC_typed _ _) fb gallantData o

/-- The stubs in a row, 64 bytes apart. -/
def rowAddr : Handler → UInt64
  | .isrDefaultHandler => 0x1000
  | .isrIrq0 => 0x1040
  | .isrIrq1 => 0x1080
  | .excStub n => 0x2000 + 0x40 * UInt64.ofNat n

def rowCode (a : UInt64) : List ExcInstr := excStub (Fin.ofNat 22 ((a - 0x2000) / 0x40).toNat)

theorem rowCode_rowAddr (n : Fin 22) : rowCode (rowAddr (.excStub n)) = excStub n := by
  have hindex : ∀ n : Fin 22,
      Fin.ofNat 22 ((rowAddr (.excStub n) - 0x2000) / 0x40).toNat = n := by decide
  rw [rowCode, hindex]

/-- A program in ring 3. -/
def ringThree : Context := ⟨fun _ => 5, 0x400000, 0x202, 0x23, 0x1B⟩

/-- A page fault of a program, over a table of zeros. -/
theorem exception_reported_pageFault : ∃ m : Machine,
    (∀ callee, raise rowCode (idtMemory (kernelIdt rowAddr fun _ => ⟨0, 0, 0, 0, 0, 0, 0⟩)) callee 14 6
      ringThree 0x8000 (fun _ => 0) = some (callee m)) ∧
      ExcFrame.read m.mem (m.reg .rdi) = .of ringThree 14 6 ∧
      m.reg .rsp &&& 15 = 0 ∧ m.rflags &&& interruptFlag = 0 ∧
      ∀ fb gallantData o cr2, ∃ o', runPrints fb gallantData o
        (excHandlerC (ExcFrame.read m.mem (m.reg .rdi)) cr2) = some o' := by
  obtain ⟨m, hraise, hframe, hrest⟩ := exception_reported rowCode_rowAddr
    (fun _ => ⟨0, 0, 0, 0, 0, 0, 0⟩) 14 6 ringThree 0x8000 fun _ => 0
  have hcode : pushesErrorCode (14 : Fin 22) = true := by decide
  rw [if_pos hcode] at hframe
  exact ⟨m, hraise, hframe, hrest⟩

end Rhoudveine.X86
