import Rhoudveine.Lib.X86

/-!
# The interrupt stubs `isr_irq0` and `isr_irq1`

Both stubs save fifteen registers, call `irq_handler`, restore the registers and
only then acknowledge the interrupt through `al`.
-/

namespace Rhoudveine.X86

/-- The registers in the order both stubs push them. -/
def savedRegs : List Reg :=
  [.rbp, .rax, .rbx, .rcx, .rdx, .rsi, .rdi, .r8, .r9, .r10, .r11, .r12, .r13, .r14, .r15]

/-- The common shape: `irq` is the argument of `irq_handler`, `eoi` the end-of-interrupt
sequence after the pops. -/
def isrStub (irq : Word) (eoi : List Instr) : List Instr :=
  .cli :: savedRegs.map .push ++ [.mov .rdi irq, .call] ++ savedRegs.reverse.map .pop ++ eoi ++
    [.sti, .iretq]

def isrIrq0 : List Instr := isrStub 0 [.movAl 0x20, .outAl 0x20]

def isrIrq1 : List Instr := isrStub 1 [.movAl 0x20, .outAl 0xA0, .movAl 0x20, .outAl 0x20]

/-- Quadwords on the stack when `irq_handler` runs: the saved registers and the
interrupt frame. -/
def stubFrame : ℕ := 20

/-- Everything the interrupted code can observe of its registers. -/
structure Resumes (c c' : Context) : Prop where
  reg : ∀ r, c'.reg r = c.reg r
  rip : c'.rip = c.rip
  rflags : c'.rflags = c.rflags

/-! ## The stubs -/

/-- An end-of-interrupt sequence leaves `al = 0x20` behind and no other trace in the
registers or the stack. -/
structure ClobbersAl (eoi : List Instr) : Prop where
  rax : ∀ callee m, (exec callee eoi m).reg .rax = withLowByte (m.reg .rax) 0x20
  other : ∀ callee m r, r ≠ .rax → (exec callee eoi m).reg r = m.reg r
  mem : ∀ callee m, (exec callee eoi m).mem = m.mem

theorem isrIrq0_eoi : ClobbersAl [.movAl 0x20, .outAl 0x20] := by
  refine ⟨fun callee m => ?_, fun callee m r hr => ?_, fun _ _ => rfl⟩
  · simp only [exec_cons, exec_nil, step, Machine.setReg_self]
  · simp only [exec_cons, exec_nil, step, Machine.setReg_of_ne _ _ hr]

theorem isrIrq1_eoi : ClobbersAl [.movAl 0x20, .outAl 0xA0, .movAl 0x20, .outAl 0x20] := by
  refine ⟨fun callee m => ?_, fun callee m r hr => ?_, fun _ _ => rfl⟩
  · simp only [exec_cons, exec_nil, step, Machine.setReg_self, withLowByte_withLowByte]
  · simp only [exec_cons, exec_nil, step, Machine.setReg_of_ne _ _ hr]

theorem rsp_not_saved : Reg.rsp ∉ savedRegs := by decide

theorem saved_of_ne_rsp {r : Reg} (hr : r ≠ .rsp) : r ∈ savedRegs.reverse := by
  cases r <;> first | decide | exact absurd rfl hr

/-- Up to the call: the fifteen registers lie on top of the interrupt frame. -/
theorem isrStub_entry (callee : Machine → Machine) (irq : Word) (c : Context) (top : Word)
    (mem : Word → Word) :
    Stack (exec callee (.cli :: savedRegs.map .push ++ [.mov .rdi irq]) (deliver c top mem)).mem
      ((exec callee (.cli :: savedRegs.map .push ++ [.mov .rdi irq])
        (deliver c top mem)).reg .rsp) (savedRegs.reverse.map c.reg ++ c.frame) := by
  have hframe := deliver_stack c top mem
  have hreg (r : Reg) (hr : r ≠ .rsp) := deliver_reg c top mem hr
  generalize deliver c top mem = m at hframe hreg
  have hcli : Stack (step callee m .cli).mem ((step callee m .cli).reg .rsp) c.frame := hframe
  have hsaved : savedRegs.map (step callee m .cli).reg = savedRegs.map c.reg := by
    refine List.map_congr_left fun r hr => hreg r ?_
    rintro rfl
    exact rsp_not_saved hr
  obtain ⟨hstack, -⟩ := exec_pushes callee savedRegs rsp_not_saved hcli
    (by simp [savedRegs, Context.frame])
  rw [hsaved, ← List.map_reverse] at hstack
  rw [exec_append, exec_cons, exec_cons, exec_nil]
  generalize exec callee (savedRegs.map .push) (step callee m .cli) = m' at hstack
  have hne : Reg.rsp ≠ .rdi := by decide
  simp only [step, Machine.setReg_mem, Machine.setReg_of_ne m' irq hne]
  exact hstack

/-- From the call on: the registers and the interrupt frame are taken off the stack
again, and `al` becomes 0x20 on the way. -/
theorem isrStub_exit (callee : Machine → Machine) {eoi : List Instr} (heoi : ClobbersAl eoi)
    {c : Context} {m : Machine}
    (hstack : Stack m.mem (m.reg .rsp) (savedRegs.reverse.map c.reg ++ c.frame)) :
    (exec callee (savedRegs.reverse.map .pop ++ eoi ++ [.sti, .iretq]) m).context =
      ⟨Function.update c.reg .rax (withLowByte (c.reg .rax) 0x20), c.rip, c.rflags, c.cs, c.ss⟩ := by
  obtain ⟨hstack, hreg, -⟩ := exec_pops callee savedRegs.reverse c.reg
    (fun h => rsp_not_saved (List.mem_reverse.mp h)) (by decide) hstack
  rw [exec_append, exec_append]
  generalize exec callee (savedRegs.reverse.map .pop) m = m' at hstack hreg
  have hframe : Stack (step callee (exec callee eoi m') .sti).mem
      ((step callee (exec callee eoi m') .sti).reg .rsp) c.frame := by
    simp only [step, heoi.mem, heoi.other callee m' .rsp (by decide)]
    exact hstack
  rw [exec_cons, exec_cons, exec_nil, iretq_context callee hframe]
  congr 1
  funext r
  by_cases hsp : r = .rsp
  · subst hsp
    rw [Function.update_self, Function.update_of_ne (by decide)]
  · rw [Function.update_of_ne hsp]
    simp only [step]
    by_cases hax : r = .rax
    · subst hax
      rw [heoi.rax, hreg _ (saved_of_ne_rsp hsp), Function.update_self]
    · rw [heoi.other callee m' r hax, hreg r (saved_of_ne_rsp hsp), Function.update_of_ne hax]

/-- What a stub does to the interrupted context: the frame is resumed, every register
keeps its value, and `al` becomes 0x20. -/
theorem exec_isrStub {callee : Machine → Machine} (hcallee : ∀ m, SysVCall stubFrame m (callee m))
    (irq : Word) {eoi : List Instr} (heoi : ClobbersAl eoi) (c : Context) (top : Word)
    (mem : Word → Word) :
    (exec callee (isrStub irq eoi) (deliver c top mem)).context =
      ⟨Function.update c.reg .rax (withLowByte (c.reg .rax) 0x20), c.rip, c.rflags, c.cs, c.ss⟩ := by
  have hsplit : isrStub irq eoi =
      (Instr.cli :: savedRegs.map Instr.push ++ [Instr.mov .rdi irq]) ++ Instr.call ::
        (savedRegs.reverse.map Instr.pop ++ eoi ++ [Instr.sti, Instr.iretq]) := by
    simp only [isrStub, List.append_assoc, List.cons_append, List.nil_append]
  have hentry := isrStub_entry callee irq c top mem
  rw [hsplit, exec_append, exec_cons]
  -- the call keeps the twenty quadwords above its stack pointer
  exact isrStub_exit callee heoi
    ((hcallee _).stack (by simp [savedRegs, Context.frame, stubFrame]) hentry)

theorem resumes_iff (c : Context) :
    Resumes c ⟨Function.update c.reg .rax (withLowByte (c.reg .rax) 0x20), c.rip, c.rflags,
      c.cs, c.ss⟩ ↔ (c.reg .rax).setWidth 8 = 0x20 := by
  rw [← withLowByte_eq_self_iff]
  constructor
  · intro h
    have hax := h.reg .rax
    simp only [Function.update_self] at hax
    exact hax
  · intro h
    refine ⟨fun r => ?_, rfl, rfl⟩
    simp only [h, Function.update_eq_self]

/-- Both stubs resume the interrupted context unchanged exactly when its `al` was
already 0x20, the end-of-interrupt command. -/
theorem isr_resumes_iff {callee : Machine → Machine}
    (hcallee : ∀ m, SysVCall stubFrame m (callee m)) {code : List Instr}
    (hcode : code = isrIrq0 ∨ code = isrIrq1) (c : Context) (top : Word) (mem : Word → Word) :
    Resumes c (exec callee code (deliver c top mem)).context ↔
      (c.reg .rax).setWidth 8 = 0x20 := by
  rcases hcode with rfl | rfl
  · rw [isrIrq0, exec_isrStub hcallee 0 isrIrq0_eoi]
    exact resumes_iff c
  · rw [isrIrq1, exec_isrStub hcallee 1 isrIrq1_eoi]
    exact resumes_iff c

/-- A handler that returns at once respects the ABI. -/
theorem sysVCall_id (frame : ℕ) (m : Machine) : SysVCall frame m (id m) :=
  ⟨fun _ _ => rfl, fun _ _ => rfl⟩

/-- Code interrupted with `al = 0x20` goes on undisturbed. -/
theorem isr_resumes_iff_al_0x20 :
    Resumes ⟨fun _ => 0x20, 0x400000, 0x202, 0x08, 0x10⟩
      (exec id isrIrq1
        (deliver ⟨fun _ => 0x20, 0x400000, 0x202, 0x08, 0x10⟩ 0x8000 fun _ => 0)).context :=
  (isr_resumes_iff (sysVCall_id stubFrame) (Or.inr rfl) _ _ _).mpr (by decide)

/-- Code interrupted with `rax = 0` finds 0x20 in it. -/
theorem isr_clobbers_rax :
    ¬ ∀ callee : Machine → Machine, (∀ m, SysVCall stubFrame m (callee m)) →
      ∀ code, code = isrIrq0 ∨ code = isrIrq1 → ∀ (c : Context) (top : Word) (mem : Word → Word),
        Resumes c (exec callee code (deliver c top mem)).context := by
  intro hall
  have h := hall id (sysVCall_id stubFrame) isrIrq0 (Or.inl rfl)
    ⟨fun _ => 0, 0x400000, 0x202, 0x08, 0x10⟩ 0x8000 fun _ => 0
  rw [isrIrq0, exec_isrStub (sysVCall_id stubFrame) 0 isrIrq0_eoi, resumes_iff] at h
  exact absurd h (by decide)

end Rhoudveine.X86
