import Mathlib

/-!
# A fragment of x86-64

Register files, an aligned stack of quadwords, and the instructions that
interrupt stubs are made of.  `Stack mem sp vs` reads a list of quadwords upwards
from `sp`; the rules below say how pushes, pops and a call that respects the
System V ABI act on it.
-/

namespace Rhoudveine.X86

inductive Reg
  | rax | rbx | rcx | rdx | rsi | rdi | rbp | rsp
  | r8 | r9 | r10 | r11 | r12 | r13 | r14 | r15
  deriving DecidableEq, Repr

abbrev Word := BitVec 64

/-- Memory is read and written by whole quadwords at 8-aligned addresses. -/
structure Machine where
  reg : Reg → Word
  rip : Word
  rflags : Word
  cs : Word
  ss : Word
  mem : Word → Word
  /-- The bytes written to I/O ports, latest first. -/
  ports : List (BitVec 8 × BitVec 8)

namespace Machine

def setReg (m : Machine) (r : Reg) (v : Word) : Machine := { m with reg := Function.update m.reg r v }

@[simp] theorem setReg_self (m : Machine) (r : Reg) (v : Word) : (m.setReg r v).reg r = v :=
  Function.update_self ..

theorem setReg_of_ne (m : Machine) {r r' : Reg} (v : Word) (h : r' ≠ r) :
    (m.setReg r v).reg r' = m.reg r' := Function.update_of_ne h ..

@[simp] theorem setReg_mem (m : Machine) (r : Reg) (v : Word) : (m.setReg r v).mem = m.mem := rfl

/-- Store a quadword below the stack pointer and move the pointer there. -/
def pushWord (m : Machine) (v : Word) : Machine :=
  { m.setReg .rsp (m.reg .rsp - 8) with mem := Function.update m.mem (m.reg .rsp - 8) v }

@[simp] theorem pushWord_rsp (m : Machine) (v : Word) :
    (m.pushWord v).reg .rsp = m.reg .rsp - 8 := by
  simp [pushWord]

theorem pushWord_of_ne (m : Machine) (v : Word) {r : Reg} (h : r ≠ .rsp) :
    (m.pushWord v).reg r = m.reg r := by
  simpa [pushWord] using setReg_of_ne m _ h

@[simp] theorem pushWord_mem (m : Machine) (v : Word) :
    (m.pushWord v).mem = Function.update m.mem (m.reg .rsp - 8) v := rfl

/-- The quadword at the stack pointer, which moves past it. -/
def popWord (m : Machine) : Word × Machine :=
  (m.mem (m.reg .rsp), m.setReg .rsp (m.reg .rsp + 8))

end Machine

inductive Instr
  | cli
  | sti
  | push (r : Reg)
  | pop (r : Reg)
  /-- `mov r, imm` with the sign-extended immediate. -/
  | mov (r : Reg) (imm : Word)
  /-- `mov al, imm8`. -/
  | movAl (imm : BitVec 8)
  /-- `out port, al`. -/
  | outAl (port : BitVec 8)
  /-- `call f`: everything from the call to the instruction after it. -/
  | call
  | iretq
  deriving DecidableEq, Repr

/-- The interrupt flag, bit 9 of `rflags`. -/
def interruptFlag : Word := 0x200

/-- `rax` with its low byte replaced. -/
def withLowByte (w : Word) (b : BitVec 8) : Word := (w &&& ~~~0xFF#64) ||| b.setWidth 64

theorem getLsbD_low_mask (i : ℕ) : (0xFF#64).getLsbD i = decide (i < 8) := by
  rw [BitVec.getLsbD_ofNat, show (0xFF : ℕ) = 2 ^ 8 - 1 from rfl, Nat.testBit_two_pow_sub_one]
  by_cases h : i < 8
  · simp [h, show i < 64 by omega]
  · simp [h]

/-- `withLowByte` bit by bit. -/
theorem getLsbD_withLowByte (w : Word) (b : BitVec 8) {i : ℕ} (hi : i < 64) :
    (withLowByte w b).getLsbD i = if i < 8 then b.getLsbD i else w.getLsbD i := by
  rw [withLowByte, BitVec.getLsbD_or, BitVec.getLsbD_and, BitVec.getLsbD_not, getLsbD_low_mask,
    BitVec.getLsbD_setWidth]
  by_cases h : i < 8
  · simp [h, hi]
  · simp [h, hi, BitVec.getLsbD_of_ge b i (by omega)]

/-- Writing the low byte changes nothing exactly when it is already there. -/
theorem withLowByte_eq_self_iff (w : Word) (b : BitVec 8) :
    withLowByte w b = w ↔ w.setWidth 8 = b := by
  constructor
  · intro h
    refine BitVec.eq_of_getLsbD_eq fun i hi => ?_
    have hbit := getLsbD_withLowByte w b (i := i) (by omega)
    rw [h, if_pos hi] at hbit
    rw [BitVec.getLsbD_setWidth, hbit]
    simp [hi]
  · rintro rfl
    refine BitVec.eq_of_getLsbD_eq fun i hi => ?_
    rw [getLsbD_withLowByte _ _ hi, BitVec.getLsbD_setWidth]
    split <;> simp [*]

theorem withLowByte_withLowByte (w : Word) (b b' : BitVec 8) :
    withLowByte (withLowByte w b) b' = withLowByte w b' := by
  refine BitVec.eq_of_getLsbD_eq fun i hi => ?_
  simp only [getLsbD_withLowByte _ _ hi]
  split <;> rfl

/-- One instruction; `callee` is the function `call` runs. -/
def step (callee : Machine → Machine) (m : Machine) : Instr → Machine
  | .cli => { m with rflags := m.rflags &&& ~~~interruptFlag }
  | .sti => { m with rflags := m.rflags ||| interruptFlag }
  | .push r => m.pushWord (m.reg r)
  | .pop r => m.popWord.2.setReg r m.popWord.1
  | .mov r imm => m.setReg r imm
  | .movAl imm => m.setReg .rax (withLowByte (m.reg .rax) imm)
  | .outAl port => { m with ports := (port, (m.reg .rax).setWidth 8) :: m.ports }
  | .call => callee m
  | .iretq =>
    let (rip, m) := m.popWord
    let (cs, m) := m.popWord
    let (rflags, m) := m.popWord
    let (rsp, m) := m.popWord
    let (ss, m) := m.popWord
    { m.setReg .rsp rsp with rip := rip, cs := cs, rflags := rflags, ss := ss }

def exec (callee : Machine → Machine) (code : List Instr) (m : Machine) : Machine :=
  code.foldl (step callee) m

@[simp] theorem exec_nil (callee : Machine → Machine) (m : Machine) : exec callee [] m = m := rfl

@[simp] theorem exec_cons (callee : Machine → Machine) (i : Instr) (code : List Instr) (m : Machine) :
    exec callee (i :: code) m = exec callee code (step callee m i) := rfl

theorem exec_append (callee : Machine → Machine) (code code' : List Instr) (m : Machine) :
    exec callee (code ++ code') m = exec callee code' (exec callee code m) := List.foldl_append

/-! ## The stack as a list -/

/-- The quadwords from `sp` upwards are `vs`. -/
def Stack (mem : Word → Word) (sp : Word) : List Word → Prop
  | [] => True
  | v :: vs => mem sp = v ∧ Stack mem (sp + 8) vs

/-- Memory that agrees on the slots of a stack holds the same stack. -/
theorem Stack.congr {mem mem' : Word → Word} {sp : Word} {vs : List Word} (h : Stack mem sp vs)
    (heq : ∀ k < vs.length, mem' (sp + 8 * BitVec.ofNat 64 k) = mem (sp + 8 * BitVec.ofNat 64 k)) :
    Stack mem' sp vs := by
  induction vs generalizing sp with
  | nil => trivial
  | cons v vs ih =>
    obtain ⟨hv, hvs⟩ := h
    have h0 := heq 0 (by simp)
    simp only [BitVec.ofNat_eq_ofNat, BitVec.mul_zero, BitVec.add_zero] at h0
    refine ⟨h0.trans hv, ih hvs fun k hk => ?_⟩
    have hk' := heq (k + 1) (by simpa using hk)
    have haddr : sp + 8 * BitVec.ofNat 64 (k + 1) = sp + 8 + 8 * BitVec.ofNat 64 k := by
      rw [BitVec.ofNat_add, BitVec.mul_add, BitVec.add_assoc, BitVec.add_comm (8 * _)]
      rfl
    rwa [haddr] at hk'

theorem Stack.getElem {mem : Word → Word} {sp : Word} {vs : List Word} (h : Stack mem sp vs) {k : ℕ}
    (hk : k < vs.length) : mem (sp + 8 * BitVec.ofNat 64 k) = vs[k] := by
  induction vs generalizing sp k with
  | nil => cases hk
  | cons v vs ih =>
    obtain ⟨hv, hvs⟩ := h
    cases k with
    | zero => simpa using hv
    | succ k =>
      have haddr : sp + 8 * BitVec.ofNat 64 (k + 1) = sp + 8 + 8 * BitVec.ofNat 64 k := by
        rw [BitVec.ofNat_add, BitVec.mul_add, BitVec.add_assoc, BitVec.add_comm (8 * _)]
        rfl
      rw [haddr]
      exact ih hvs (Nat.lt_of_succ_lt_succ hk)

/-- The slot below the stack pointer is none of the slots above it. -/
theorem below_ne_slot (sp : Word) {k : ℕ} (hk : k < 2 ^ 60) :
    sp + 8 * BitVec.ofNat 64 k ≠ sp - 8 := by
  intro h
  have h8 : (8 : Word).toNat = 8 := rfl
  have h' := congrArg BitVec.toNat h
  simp only [BitVec.toNat_add, BitVec.toNat_sub, BitVec.toNat_mul, BitVec.toNat_ofNat, h8] at h'
  have := sp.isLt
  omega

theorem Stack.pushWord {m : Machine} {vs : List Word} (h : Stack m.mem (m.reg .rsp) vs)
    (hlen : vs.length < 2 ^ 60) (v : Word) :
    Stack (m.pushWord v).mem ((m.pushWord v).reg .rsp) (v :: vs) := by
  rw [Machine.pushWord_rsp, Machine.pushWord_mem]
  refine ⟨Function.update_self .., ?_⟩
  rw [BitVec.sub_add_cancel]
  refine h.congr fun k hk => ?_
  exact Function.update_of_ne (below_ne_slot _ (by omega)) ..

theorem Stack.popWord {m : Machine} {v : Word} {vs : List Word} (h : Stack m.mem (m.reg .rsp) (v :: vs)) :
    m.popWord.1 = v ∧ Stack m.popWord.2.mem (m.popWord.2.reg .rsp) vs := by
  obtain ⟨hv, hvs⟩ := h
  refine ⟨hv, ?_⟩
  change Stack m.mem ((m.setReg .rsp (m.reg .rsp + 8)).reg .rsp) vs
  rwa [Machine.setReg_self]

/-! ## Saving and restoring registers -/

/-- What `push r₁; push r₂; …` leaves: the registers untouched and their values on
the stack, last pushed first. -/
theorem exec_pushes (callee : Machine → Machine) (rs : List Reg) {m : Machine} {vs : List Word}
    (hrs : Reg.rsp ∉ rs) (h : Stack m.mem (m.reg .rsp) vs) (hlen : vs.length + rs.length < 2 ^ 60) :
    Stack (exec callee (rs.map .push) m).mem ((exec callee (rs.map .push) m).reg .rsp)
        ((rs.map m.reg).reverse ++ vs) ∧
      ∀ r, r ≠ .rsp → (exec callee (rs.map .push) m).reg r = m.reg r := by
  induction rs generalizing m vs with
  | nil => exact ⟨h, fun _ _ => rfl⟩
  | cons r rs ih =>
    simp only [List.mem_cons, not_or] at hrs
    simp only [List.length_cons] at hlen
    have hkeep (r' : Reg) (hr' : r' ≠ .rsp) : (m.pushWord (m.reg r)).reg r' = m.reg r' :=
      m.pushWord_of_ne _ hr'
    have hmap : rs.map (m.pushWord (m.reg r)).reg = rs.map m.reg := by
      refine List.map_congr_left fun r' hr' => hkeep r' ?_
      rintro rfl
      exact hrs.2 hr'
    obtain ⟨hstack, hregs⟩ := ih hrs.2 (h.pushWord (by omega) (m.reg r))
      (by simp only [List.length_cons]; omega)
    rw [hmap] at hstack
    refine ⟨?_, fun r' hr' => (hregs r' hr').trans (hkeep r' hr')⟩
    simpa [step] using hstack

/-- What `pop r₁; pop r₂; …` restores from a stack that starts with the values `f`. -/
theorem exec_pops (callee : Machine → Machine) (rs : List Reg) (f : Reg → Word) {m : Machine}
    {vs : List Word} (hrs : Reg.rsp ∉ rs) (hnd : rs.Nodup)
    (h : Stack m.mem (m.reg .rsp) (rs.map f ++ vs)) :
    Stack (exec callee (rs.map .pop) m).mem ((exec callee (rs.map .pop) m).reg .rsp) vs ∧
      (∀ r ∈ rs, (exec callee (rs.map .pop) m).reg r = f r) ∧
      ∀ r, r ∉ rs → r ≠ .rsp → (exec callee (rs.map .pop) m).reg r = m.reg r := by
  induction rs generalizing m with
  | nil => exact ⟨h, by simp, fun _ _ _ => rfl⟩
  | cons r rs ih =>
    simp only [List.mem_cons, not_or] at hrs
    obtain ⟨hr, hnd⟩ := List.nodup_cons.mp hnd
    obtain ⟨hv, hstack⟩ := Stack.popWord h
    have hsp : (step callee m (.pop r)).reg .rsp = m.popWord.2.reg .rsp :=
      Machine.setReg_of_ne _ _ hrs.1
    have hr_self : (step callee m (.pop r)).reg r = f r := (Machine.setReg_self ..).trans hv
    have hother (r' : Reg) (hne : r' ≠ r) (hne' : r' ≠ .rsp) :
        (step callee m (.pop r)).reg r' = m.reg r' :=
      (Machine.setReg_of_ne _ _ hne).trans (Machine.setReg_of_ne _ _ hne')
    obtain ⟨hrest, hin, hout⟩ := ih (m := step callee m (.pop r)) hrs.2 hnd (by rwa [hsp])
    refine ⟨hrest, fun r' hr' => ?_, fun r' hr' hne => ?_⟩
    · by_cases hmem : r' ∈ rs
      · exact hin r' hmem
      · obtain rfl : r' = r := (List.mem_cons.mp hr').resolve_right hmem
        exact (hout r' hmem (Ne.symm hrs.1)).trans hr_self
    · simp only [List.mem_cons, not_or] at hr'
      exact (hout r' hr'.2 hne).trans (hother r' hr'.1 hne)

/-! ## Calls -/

/-- The registers a System V function preserves, `rsp` included. -/
def calleeSaved : List Reg := [.rbx, .rbp, .rsp, .r12, .r13, .r14, .r15]

/-- A call that respects the System V ABI: callee-saved registers keep their value
and the caller's `frame` quadwords above the stack pointer are left alone.
Everything else is arbitrary. -/
structure SysVCall (frame : ℕ) (m m' : Machine) : Prop where
  saved : ∀ r ∈ calleeSaved, m'.reg r = m.reg r
  frame_kept : ∀ k < frame, m'.mem (m.reg .rsp + 8 * BitVec.ofNat 64 k) =
    m.mem (m.reg .rsp + 8 * BitVec.ofNat 64 k)

theorem SysVCall.stack {frame : ℕ} {m m' : Machine} (h : SysVCall frame m m') {vs : List Word}
    (hlen : vs.length ≤ frame) (hstack : Stack m.mem (m.reg .rsp) vs) :
    Stack m'.mem (m'.reg .rsp) vs := by
  rw [h.saved .rsp (by decide)]
  exact hstack.congr fun k hk => h.frame_kept k (by omega)

/-! ## Interrupts -/

/-- What an interrupt suspends and `iretq` resumes. -/
structure Context where
  reg : Reg → Word
  rip : Word
  rflags : Word
  cs : Word
  ss : Word

/-- The quadwords of an interrupt frame, from the stack pointer upwards. -/
def Context.frame (c : Context) : List Word := [c.rip, c.cs, c.rflags, c.reg .rsp, c.ss]

def Machine.context (m : Machine) : Context := ⟨m.reg, m.rip, m.rflags, m.cs, m.ss⟩

/-- The processor's delivery of an interrupt through an interrupt gate: the stack
pointer `top` it switches to or continues on is aligned to 16, the frame
`ss, rsp, rflags, cs, rip` is pushed and interrupts are masked. -/
def deliver (c : Context) (top : Word) (mem : Word → Word) : Machine :=
  let m : Machine :=
    { reg := Function.update c.reg .rsp (top &&& ~~~15#64), rip := c.rip
      rflags := c.rflags &&& ~~~interruptFlag, cs := c.cs, ss := c.ss, mem := mem, ports := [] }
  ((((m.pushWord c.ss).pushWord (c.reg .rsp)).pushWord c.rflags).pushWord c.cs).pushWord c.rip

theorem deliver_stack (c : Context) (top : Word) (mem : Word → Word) :
    Stack (deliver c top mem).mem ((deliver c top mem).reg .rsp) c.frame := by
  have hempty (m : Machine) : Stack m.mem (m.reg .rsp) [] := trivial
  refine Stack.pushWord (Stack.pushWord (Stack.pushWord (Stack.pushWord (Stack.pushWord
    (hempty _) ?_ _) ?_ _) ?_ _) ?_ _) ?_ _ <;> simp

theorem deliver_reg (c : Context) (top : Word) (mem : Word → Word) {r : Reg} (hr : r ≠ .rsp) :
    (deliver c top mem).reg r = c.reg r := by
  simp [deliver, Machine.pushWord_of_ne _ _ hr, Function.update_of_ne hr]

/-- `iretq` resumes the context whose frame is on the stack. -/
theorem iretq_context (callee : Machine → Machine) {m : Machine} {c : Context}
    (h : Stack m.mem (m.reg .rsp) c.frame) :
    (step callee m .iretq).context =
      ⟨Function.update m.reg .rsp (c.reg .rsp), c.rip, c.rflags, c.cs, c.ss⟩ := by
  obtain ⟨h1, h⟩ := Stack.popWord h
  obtain ⟨h2, h⟩ := Stack.popWord h
  obtain ⟨h3, h⟩ := Stack.popWord h
  obtain ⟨h4, h⟩ := Stack.popWord h
  obtain ⟨h5, -⟩ := Stack.popWord h
  simp only [step, Machine.context]
  rw [h1, h2, h3, h4, h5]
  simp [Machine.popWord, Machine.setReg]

end Rhoudveine.X86
