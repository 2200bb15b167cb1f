import Rhoudveine.Lib.RingQueue
import Rhoudveine.Lib.Run

/-!
# The input ring

The ring buffer of `ps2.c` between the keyboards and their readers, and the display mode
of `nvec.c`, in which the keyboards swallow what is typed.
-/

namespace Rhoudveine.Input

/-! ## The code -/

/-- `in_head`, `in_tail` and `in_buf`. -/
structure InputRing where
  head : UInt32
  tail : UInt32
  buf : ℕ → UInt8

def inputAddChar (r : InputRing) (c : UInt8) : InputRing :=
  let next := (r.head + 1) &&& 255
  if next ≠ r.tail then { r with buf := Function.update r.buf r.head.toNat c, head := next }
  else r

/-- The end of `ps2_getchar` and of `try_getchar`; `none` when the ring is empty. -/
def readChar (r : InputRing) : Option (UInt8 × InputRing) :=
  if r.head = r.tail then none
  else some (r.buf r.tail.toNat, { r with tail := (r.tail + 1) &&& 255 })

/-! ## The display mode -/

inductive DisplayMode
  | shell
  | graphics
  deriving DecidableEq, Repr

/-- `g_mode` and `g_ready`. -/
structure Nvec where
  mode : DisplayMode
  ready : Bool

def nvecEnterGraphics (n : Nvec) : Nvec :=
  if ¬ n.ready ∨ n.mode = .graphics then n else { n with mode := .graphics }

def nvecExitGraphics (n : Nvec) : Nvec :=
  if ¬ n.ready ∨ n.mode = .shell then n else { n with mode := .shell }

def nvecToggle (n : Nvec) : Nvec :=
  if n.mode = .shell then nvecEnterGraphics n else nvecExitGraphics n

def nvecSuppressConsole (n : Nvec) : Prop := n.mode = .graphics

instance (n : Nvec) : Decidable (nvecSuppressConsole n) := inferInstanceAs (Decidable (_ = _))

/-! ## Writers and readers -/

/-- The ring with its history. -/
structure Input where
  ring : InputRing
  accepted : List UInt8
  read : List UInt8

/-- `in_head` and `in_tail` are 0; `in_buf` is only read where it was written. -/
def Input.start (buf : ℕ → UInt8) : Input := ⟨⟨0, 0, buf⟩, [], []⟩

inductive Action
  | add (c : UInt8)
  /-- A read that finds a character. -/
  | read
  deriving DecidableEq, Repr

/-- A character is accepted if the head moves. -/
inductive Input.Step : Input → Action → Input → Prop
  | add {i : Input} {c : UInt8} :
      Step i (.add c)
        ⟨inputAddChar i.ring c,
          if (inputAddChar i.ring c).head = i.ring.head then i.accepted else i.accepted ++ [c],
          i.read⟩
  | read {i : Input} {c : UInt8} {r : InputRing} : readChar i.ring = some (c, r) →
      Step i .read ⟨r, i.accepted, i.read ++ [c]⟩

/-- The ring is a queue of at most 255 characters. -/
structure Input.Fifo (i : Input) : Prop where
  order : i.read <+: i.accepted
  next : (readChar i.ring).map Prod.fst = i.accepted[i.read.length]?
  dropped_iff : ∀ c, inputAddChar i.ring c = i.ring ↔ i.accepted.length = i.read.length + 255
  head_lt : i.ring.head < 256
  tail_lt : i.ring.tail < 256

/-! ## The invariant -/

/-- `pushed` were accepted, and `popped` of them read. -/
def InputRing.Holds (r : InputRing) (pushed popped : List UInt8) : Prop :=
  RingQueue.Holds 256 r.buf r.head.toNat r.tail.toNat pushed popped

variable {r : InputRing} {pushed popped : List UInt8} {i j : Input}

theorem toNat_next {x : UInt32} (hx : x.toNat < 256) :
    ((x + 1) &&& 255).toNat = (x.toNat + 1) % 256 := by
  have hmask : (255 : UInt32).toNat = 2 ^ 8 - 1 := rfl
  have hone : (1 : UInt32).toNat = 1 := rfl
  rw [UInt32.toNat_and, hmask, Nat.and_two_pow_sub_one_eq_mod, UInt32.toNat_add, hone,
    Nat.mod_eq_of_lt (by omega : x.toNat + 1 < 2 ^ 32)]

theorem InputRing.Holds.full_iff (h : r.Holds pushed popped) :
    (r.head + 1) &&& 255 = r.tail ↔ pushed.length = popped.length + 255 := by
  have hfull := RingQueue.Holds.full_iff h
  rw [← UInt32.toNat_inj, toNat_next h.head_lt, hfull]
  omega

theorem InputRing.Holds.empty_iff (h : r.Holds pushed popped) :
    r.head = r.tail ↔ pushed.length = popped.length := by
  rw [← UInt32.toNat_inj]
  exact RingQueue.Holds.empty_iff h

/-- The head of an accepted character. -/
theorem next_ne {x : UInt32} (hx : x.toNat < 256) : (x + 1) &&& 255 ≠ x := by
  intro h
  have hnat := congrArg UInt32.toNat h
  rw [toNat_next hx] at hnat
  omega

theorem InputRing.Holds.add (h : r.Holds pushed popped) (c : UInt8) :
    (inputAddChar r c).Holds
      (if (inputAddChar r c).head = r.head then pushed else pushed ++ [c]) popped := by
  unfold inputAddChar
  dsimp only
  by_cases hfull : (r.head + 1) &&& 255 = r.tail
  · rw [if_neg (not_not_intro hfull), if_pos rfl]
    exact h
  · have hlt := h.head_lt
    rw [if_pos hfull, if_neg (next_ne hlt)]
    have hroom : (r.head.toNat + 1) % 256 ≠ r.tail.toNat := by
      rw [← toNat_next hlt]
      exact fun heq => hfull (UInt32.toNat_inj.mp heq)
    have hpush := RingQueue.Holds.push h hroom c
    rw [← toNat_next hlt] at hpush
    exact hpush

theorem InputRing.Holds.read {c : UInt8} {r' : InputRing} (h : r.Holds pushed popped)
    (hread : readChar r = some (c, r')) : r'.Holds pushed (popped ++ [c]) := by
  obtain ⟨hne, hpair⟩ := Option.ite_none_left_eq_some.mp hread
  obtain ⟨rfl, rfl⟩ := Prod.mk.inj (Option.some.inj hpair)
  have hempty : r.head.toNat ≠ r.tail.toNat := fun heq => hne (UInt32.toNat_inj.mp heq)
  have hpop := RingQueue.Holds.pop h hempty
  rw [← toNat_next h.tail_lt] at hpop
  exact hpop

theorem InputRing.Holds.next (h : r.Holds pushed popped) :
    (readChar r).map Prod.fst = pushed[popped.length]? := by
  unfold readChar
  by_cases hempty : r.head = r.tail
  · have hall := h.empty_iff.mp hempty
    rw [if_pos hempty, List.getElem?_eq_none hall.le]
    rfl
  · have hlt : popped.length < pushed.length := by
      have hne : pushed.length ≠ popped.length := fun heq => hempty (h.empty_iff.mpr heq)
      have hle := h.order.length_le
      omega
    have hget : pushed[popped.length]? = some pushed[popped.length] :=
      List.getElem?_eq_getElem hlt
    have hslot := h.kept _ _ hget le_rfl
    rw [← h.tail] at hslot
    rw [if_neg hempty, hget, ← hslot]
    rfl

theorem InputRing.Holds.dropped_iff (h : r.Holds pushed popped) (c : UInt8) :
    inputAddChar r c = r ↔ pushed.length = popped.length + 255 := by
  rw [← h.full_iff]
  unfold inputAddChar
  dsimp only
  by_cases hfull : (r.head + 1) &&& 255 = r.tail
  · rw [if_neg (not_not_intro hfull)]
    exact iff_of_true rfl hfull
  · rw [if_pos hfull]
    refine iff_of_false (fun heq => ?_) hfull
    exact next_ne h.head_lt (congrArg InputRing.head heq)

/-! ## Runs -/

theorem Input.Step.holds {a : Action} (h : i.ring.Holds i.accepted i.read)
    (hstep : Input.Step i a j) : j.ring.Holds j.accepted j.read := by
  cases hstep with
  | add => exact h.add _
  | read hread => exact h.read hread

theorem InputRing.Holds.fifo (h : i.ring.Holds i.accepted i.read) : i.Fifo := by
  refine ⟨h.order, h.next, h.dropped_iff, ?_, ?_⟩
  · exact UInt32.lt_iff_toNat_lt.mpr h.head_lt
  · exact UInt32.lt_iff_toNat_lt.mpr h.tail_lt

/-- However writers and readers are interleaved. -/
theorem input_fifo {buf : ℕ → UInt8} {actions : List Action}
    (hrun : Run Input.Step (Input.start buf) actions i) : i.Fifo := by
  have hstart : (Input.start buf).ring.Holds [] [] := RingQueue.Holds.start (by norm_num) buf
  have hholds := hrun.invariant (P := fun i => i.ring.Holds i.accepted i.read)
    (fun _ _ _ hi hstep => hstep.holds hi) hstart
  exact hholds.fifo

/-- Two characters, one of them read. -/
theorem input_fifo_ab : ∃ i : Input, i.accepted = [97, 98] ∧ i.read = [97] ∧ i.Fifo := by
  have hrun : ∃ i, Run Input.Step (Input.start fun _ => 0) [.add 97, .add 98, .read] i ∧
      i.accepted = [97, 98] ∧ i.read = [97] :=
    ⟨_, .cons .add (.cons .add (.cons (.read rfl) (.nil _))), by decide, by decide⟩
  obtain ⟨i, hrun, haccepted, hread⟩ := hrun
  exact ⟨i, haccepted, hread, input_fifo hrun⟩

end Rhoudveine.Input
