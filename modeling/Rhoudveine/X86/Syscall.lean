import Rhoudveine.Lib.X86

/-!
# The system call entry `syscall_entry`

The processor leaves the return address in `rcx` and the flags in `r11`.  The code switches
to its own stack, saves the registers there, moves the arguments to where a C function expects
them, calls `syscall_handler` and takes everything off the stack again.
-/

namespace Rhoudveine.X86

/-! ## The code -/

/-- The instructions of `syscall.asm`; a label stands for its address. -/
inductive EntryInstr
  | base (i : Instr)
  /-- `mov dst, src`. -/
  | movReg (dst src : Reg)
  /-- `mov [rel label], src`. -/
  | storeReg (label : Word) (src : Reg)
  /-- `lea dst, [rel label]`. -/
  | lea (dst : Reg) (label : Word)
  /-- `push qword [rel label]`. -/
  | pushMem (label : Word)
  /-- `add dst, imm`.  Nothing reads the flags it sets before `sysret` replaces them. -/
  | add (dst : Reg) (imm : Word)
  | sysret
  deriving DecidableEq, Repr

/-- What `sysret` makes of `r11`: the resume flag, the virtual-8086 flag and the reserved bits
are cleared, and bit 1 is set. -/
def sysretFlags (r11 : Word) : Word := (r11 &&& 0x3C7FD7) ||| 2

/-- One instruction.  The selectors, which `syscall` and `sysret` load from a register of the
processor, are not followed. -/
def entryStep (callee : Machine → Machine) (m : Machine) : EntryInstr → Machine
  | .base i => step callee m i
  | .movReg dst src => m.setReg dst (m.reg src)
  | .storeReg label src => { m with mem := Function.update m.mem label (m.reg src) }
  | .lea dst label => m.setReg dst label
  | .pushMem label => m.pushWord (m.mem label)
  | .add dst imm => m.setReg dst (m.reg dst + imm)
  | .sysret => { m with rip := m.reg .rcx, rflags := sysretFlags (m.reg .r11) }

def execEntry (callee : Machine → Machine) (code : List EntryInstr) (m : Machine) : Machine :=
  code.foldl (entryStep callee) m

/-- The registers in the order they are pushed, `r11` and `rcx` with what `syscall` put there. -/
def pushedRegs : List Reg :=
  [.r11, .rcx, .rax, .rdi, .rsi, .rdx, .r10, .r8, .r9, .rbx, .rbp, .r12, .r13, .r14, .r15]

/-- `kernel_syscall_stack_top` and `temp_rsp_storage` are labels of one address. -/
def syscallSave (top : Word) : List EntryInstr :=
  [.storeReg top .rsp, .lea .rsp top, .pushMem top] ++ pushedRegs.map fun r => .base (.push r)

def syscallShuffle : List EntryInstr :=
  [.movReg .r9 .r8, .movReg .r8 .r10, .movReg .rcx .rdx, .movReg .rdx .rsi, .movReg .rsi .rdi,
    .movReg .rdi .rax]

def poppedRegs : List Reg :=
  [.r15, .r14, .r13, .r12, .rbp, .rbx, .r9, .r8, .r10, .rdx, .rsi, .rdi]

/-- The saved `rax` is dropped, because `rax` holds the result. -/
def syscallReturn : List EntryInstr :=
  [.add .rsp 8, .base (.pop .rcx), .base (.pop .r11), .base (.pop .rsp), .sysret]

def syscallRestore : List EntryInstr :=
  (poppedRegs.map fun r => .base (.pop r)) ++ syscallReturn

def syscallEntry (top : Word) : List EntryInstr :=
  syscallSave top ++ syscallShuffle ++ .base .call :: syscallRestore

/-! ## A system call -/

/-- What a program can have in its registers when it executes `syscall`. -/
structure UserContext where
  reg : Reg → Word
  rip : Word
  rflags : Word
  flags_valid : sysretFlags rflags = rflags

/-- The machine at the first instruction of `syscall_entry`: `rip` is the return address, and
`mask` is what the kernel has chosen to clear in the flags. -/
def syscallEnter (u : UserContext) (mask : Word) (kernel : Machine) : Machine :=
  { kernel with
    reg := Function.update (Function.update u.reg .rcx u.rip) .r11 u.rflags
    rflags := u.rflags &&& ~~~mask }

/-- Quadwords on the stack when `syscall_handler` runs. -/
def syscallFrame : ℕ := 16

/-- The machine `syscall_handler` is called in. -/
def handlerEntry (callee : Machine → Machine) (top : Word) (m : Machine) : Machine :=
  execEntry callee (syscallSave top ++ syscallShuffle) m

/-- The handler gets the six arguments, the program its registers and the result. -/
structure SyscallServes (callee : Machine → Machine) (top : Word) (m : Machine) : Prop where
  arguments : [Reg.rdi, .rsi, .rdx, .rcx, .r8, .r9].map (handlerEntry callee top m).reg =
    [Reg.rax, .rdi, .rsi, .rdx, .r10, .r8].map m.reg
  result : (execEntry callee (syscallEntry top) m).reg .rax =
    (callee (handlerEntry callee top m)).reg .rax
  reg : ∀ r, r ≠ .rax → (execEntry callee (syscallEntry top) m).reg r = m.reg r
  rip : (execEntry callee (syscallEntry top) m).rip = m.reg .rcx
  rflags : (execEntry callee (syscallEntry top) m).rflags = m.reg .r11

/-! ## The stack -/

variable {callee : Machine → Machine}

theorem execEntry_append (code code' : List EntryInstr) (m : Machine) :
    execEntry callee (code ++ code') m = execEntry callee code' (execEntry callee code m) :=
  List.foldl_append

theorem execEntry_cons (i : EntryInstr) (code : List EntryInstr) (m : Machine) :
    execEntry callee (i :: code) m = execEntry callee code (entryStep callee m i) := rfl

/-- Pushes and pops are the ones of every stub. -/
theorem execEntry_base (code : List Reg) (f : Reg → Instr) (m : Machine) :
    execEntry callee (code.map fun r => .base (f r)) m = exec callee (code.map f) m := by
  induction code generalizing m with
  | nil => rfl
  | cons r code ih =>
    rw [List.map_cons, List.map_cons, execEntry_cons, exec_cons]
    exact ih _

theorem rsp_not_pushed : Reg.rsp ∉ pushedRegs := by decide

theorem rsp_not_popped : Reg.rsp ∉ poppedRegs := by decide

/-- What is on the stack of the kernel during the call. -/
def syscallStack (m : Machine) : List Word :=
  poppedRegs.map m.reg ++ [m.reg .rax, m.reg .rcx, m.reg .r11, m.reg .rsp]

theorem syscallSave_stack (callee : Machine → Machine) (top : Word) (m : Machine) :
    Stack (execEntry callee (syscallSave top) m).mem
        ((execEntry callee (syscallSave top) m).reg .rsp) (syscallStack m) ∧
      ∀ r, r ≠ .rsp → (execEntry callee (syscallSave top) m).reg r = m.reg r := by
  have hreg : ∀ r, r ≠ .rsp → (execEntry callee
      [.storeReg top .rsp, .lea .rsp top, .pushMem top] m).reg r = m.reg r := by
    intro r hr
    exact (Machine.pushWord_of_ne _ _ hr).trans (Machine.setReg_of_ne _ _ hr)
  have hsp : Stack (execEntry callee [.storeReg top .rsp, .lea .rsp top, .pushMem top] m).mem
      ((execEntry callee [.storeReg top .rsp, .lea .rsp top, .pushMem top] m).reg .rsp)
      [m.reg .rsp] := by
    have hempty : ∀ m' : Machine, Stack m'.mem (m'.reg .rsp) [] := fun _ => trivial
    have hpush := Stack.pushWord (hempty (entryStep callee (entryStep callee m
      (.storeReg top .rsp)) (.lea .rsp top))) (by decide) (Function.update m.mem top (m.reg .rsp) top)
    rw [Function.update_self] at hpush
    have hword : (entryStep callee (entryStep callee m (.storeReg top .rsp)) (.lea .rsp top)).mem
        top = m.reg .rsp := Function.update_self ..
    rw [execEntry_cons, execEntry_cons, execEntry_cons]
    change Stack ((Machine.pushWord _ _).mem) _ _
    rw [hword]
    exact hpush
  rw [syscallSave, execEntry_append, execEntry_base]
  generalize execEntry callee [.storeReg top .rsp, .lea .rsp top, .pushMem top] m = m' at hreg hsp
  obtain ⟨hstack, hkept⟩ := exec_pushes callee pushedRegs rsp_not_pushed hsp (by simp [pushedRegs])
  have hvalues : (pushedRegs.map m'.reg).reverse ++ [m.reg .rsp] = syscallStack m := by
    have hsame : pushedRegs.map m'.reg = pushedRegs.map m.reg := by
      apply List.map_congr_left
      intro r hr
      exact hreg r fun heq => rsp_not_pushed (heq ▸ hr)
    rw [hsame]
    rfl
  rw [hvalues] at hstack
  exact ⟨hstack, fun r hr => (hkept r hr).trans (hreg r hr)⟩

/-- The moves read every register before they write it. -/
theorem syscallShuffle_reg (callee : Machine → Machine) (m : Machine) :
    [Reg.rdi, .rsi, .rdx, .rcx, .r8, .r9].map (execEntry callee syscallShuffle m).reg =
      [Reg.rax, .rdi, .rsi, .rdx, .r10, .r8].map m.reg := by
  simp [syscallShuffle, execEntry, entryStep, Machine.setReg]

theorem syscallShuffle_rsp (callee : Machine → Machine) (m : Machine) :
    (execEntry callee syscallShuffle m).reg .rsp = m.reg .rsp := by
  simp [syscallShuffle, execEntry, entryStep, Machine.setReg]

theorem syscallShuffle_mem (callee : Machine → Machine) (m : Machine) :
    (execEntry callee syscallShuffle m).mem = m.mem := rfl

/-- The end of the code, with only what belongs to the return on the stack. -/
theorem syscallReturn_of_stack {e m : Machine}
    (hstack : Stack m.mem (m.reg .rsp) [e.reg .rax, e.reg .rcx, e.reg .r11, e.reg .rsp]) :
    (∀ r ∈ [Reg.rcx, .r11, .rsp], (execEntry callee syscallReturn m).reg r = e.reg r) ∧
      (∀ r ∉ [Reg.rcx, .r11, .rsp], (execEntry callee syscallReturn m).reg r = m.reg r) ∧
      (execEntry callee syscallReturn m).rip = e.reg .rcx ∧
      (execEntry callee syscallReturn m).rflags = sysretFlags (e.reg .r11) := by
  have hdrop : Stack (m.setReg .rsp (m.reg .rsp + 8)).mem
      ((m.setReg .rsp (m.reg .rsp + 8)).reg .rsp)
      ([Reg.rcx, .r11].map e.reg ++ [e.reg .rsp]) := by
    rw [Machine.setReg_self]
    exact hstack.2
  obtain ⟨hrest, hin, hout⟩ := exec_pops callee [.rcx, .r11] e.reg (by decide) (by decide) hdrop
  have hrcx := hin .rcx (by decide)
  have hr11 := hin .r11 (by decide)
  have hkept : ∀ r ∉ [Reg.rcx, .r11], r ≠ .rsp →
      (exec callee ([Reg.rcx, .r11].map .pop) (m.setReg .rsp (m.reg .rsp + 8))).reg r =
        m.reg r :=
    fun r hr hne => (hout r hr hne).trans (Machine.setReg_of_ne _ _ hne)
  have hcode : execEntry callee syscallReturn m = execEntry callee [.base (.pop .rsp), .sysret]
      (exec callee ([Reg.rcx, .r11].map .pop) (m.setReg .rsp (m.reg .rsp + 8))) := rfl
  rw [hcode]
  generalize exec callee ([Reg.rcx, .r11].map .pop) (m.setReg .rsp (m.reg .rsp + 8)) = m' at *
  obtain ⟨hrsp, -⟩ := Stack.popWord hrest
  have hreg : (execEntry callee [.base (.pop .rsp), .sysret] m').reg =
      Function.update m'.reg .rsp (e.reg .rsp) := by
    rw [← hrsp]
    exact Function.update_idem ..
  have hne : Reg.rcx ≠ .rsp ∧ Reg.r11 ≠ .rsp := by decide
  refine ⟨?_, ?_, ?_, ?_⟩
  · intro r hr
    rw [hreg]
    by_cases hsp : r = .rsp
    · subst hsp
      exact Function.update_self ..
    · rw [Function.update_of_ne hsp]
      apply hin
      simpa [hsp] using hr
  · intro r hr
    have hr' : r ∉ [Reg.rcx, .r11] ∧ r ≠ .rsp := by
      revert hr
      cases r <;> decide
    rw [hreg, Function.update_of_ne hr'.2]
    exact hkept r hr'.1 hr'.2
  · change (execEntry callee [.base (.pop .rsp)] m').reg .rcx = _
    exact (congrFun hreg .rcx).trans ((Function.update_of_ne hne.1 _ _).trans hrcx)
  · change sysretFlags ((execEntry callee [.base (.pop .rsp)] m').reg .r11) = _
    exact congrArg sysretFlags
      ((congrFun hreg .r11).trans ((Function.update_of_ne hne.2 _ _).trans hr11))

/-- After the call: the registers come off the stack, and `rax` keeps the result. -/
theorem syscallRestore_of_stack {e m : Machine}
    (hstack : Stack m.mem (m.reg .rsp) (syscallStack e)) :
    (execEntry callee syscallRestore m).reg .rax = m.reg .rax ∧
      (∀ r, r ≠ .rax → (execEntry callee syscallRestore m).reg r = e.reg r) ∧
      (execEntry callee syscallRestore m).rip = e.reg .rcx ∧
      (execEntry callee syscallRestore m).rflags = sysretFlags (e.reg .r11) := by
  obtain ⟨hrest, hpopped, hother⟩ := exec_pops callee poppedRegs e.reg rsp_not_popped (by decide)
    hstack
  have hrax := hother .rax (by decide) (by decide)
  rw [syscallRestore, execEntry_append, execEntry_base]
  obtain ⟨hback, hkept, hrip, hrflags⟩ := @syscallReturn_of_stack callee _ _ hrest
  refine ⟨(hkept .rax (by decide)).trans hrax, ?_, hrip, hrflags⟩
  intro r hr
  by_cases hmem : r ∈ [Reg.rcx, .r11, .rsp]
  · exact hback r hmem
  · have hsaved : r ∈ poppedRegs := by
      revert hr hmem
      cases r <;> decide
    exact (hkept r hmem).trans (hpopped r hsaved)

/-! ## The whole call -/

theorem handlerEntry_stack (callee : Machine → Machine) (top : Word) (m : Machine) :
    Stack (handlerEntry callee top m).mem ((handlerEntry callee top m).reg .rsp)
      (syscallStack m) := by
  rw [handlerEntry, execEntry_append, syscallShuffle_mem, syscallShuffle_rsp]
  exact (syscallSave_stack callee top m).1

theorem handlerEntry_arguments (callee : Machine → Machine) (top : Word) (m : Machine) :
    [Reg.rdi, .rsi, .rdx, .rcx, .r8, .r9].map (handlerEntry callee top m).reg =
      [Reg.rax, .rdi, .rsi, .rdx, .r10, .r8].map m.reg := by
  rw [handlerEntry, execEntry_append, syscallShuffle_reg]
  apply List.map_congr_left
  intro r hr
  apply (syscallSave_stack callee top m).2
  rintro rfl
  revert hr
  decide

/-- Whatever a `syscall_handler` that respects the System V ABI does, it gets its arguments in
order, and the program goes on with its registers, its stack and its flags. -/
theorem syscall_entry_serves (hcallee : ∀ m, SysVCall syscallFrame m (callee m))
    (u : UserContext) (mask top : Word) (kernel : Machine) :
    SyscallServes callee top (syscallEnter u mask kernel) := by
  generalize henter : syscallEnter u mask kernel = m
  have hflags : sysretFlags (m.reg .r11) = m.reg .r11 := by
    rw [← henter]
    exact u.flags_valid
  have hcall := (hcallee (handlerEntry callee top m)).stack (le_refl (syscallStack m).length)
    (handlerEntry_stack callee top m)
  obtain ⟨hrax, hreg, hrip, hrflags⟩ := @syscallRestore_of_stack callee _ _ hcall
  have hwhole : execEntry callee (syscallEntry top) m =
      execEntry callee syscallRestore (callee (handlerEntry callee top m)) := by
    rw [syscallEntry, execEntry_append, execEntry_cons]
    rfl
  rw [← hwhole] at hrax hreg hrip hrflags
  exact ⟨handlerEntry_arguments callee top m, hrax, hreg, hrip, hrflags.trans hflags⟩

/-- A handler that does nothing respects the ABI. -/
theorem syscall_entry_serves_id :
    SyscallServes id 0x8000 (syscallEnter ⟨fun _ => 7, 0x400000, 0x202, by decide⟩ 0x200
      ⟨fun _ => 0, 0, 0, 0, 0, fun _ => 0, []⟩) :=
  syscall_entry_serves (fun _ => ⟨fun _ _ => rfl, fun _ _ => rfl⟩) _ _ _ _

end Rhoudveine.X86
