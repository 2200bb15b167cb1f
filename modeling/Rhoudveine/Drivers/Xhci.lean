import Mathlib

/-!
# Transfer request blocks

The 16-byte entries of the xHCI rings, and the position of the controller on a ring that the
driver fills.
-/

namespace Rhoudveine.Xhci

/-! ## TRBs -/

/-- `xhci_trb_t`. -/
structure Trb where
  parameter : UInt64
  status : UInt32
  control : UInt32
  deriving DecidableEq, Repr

def trbTypeNormal : UInt32 := 1

def trbTypeSetupStage : UInt32 := 2

def trbTypeDataStage : UInt32 := 3

def trbTypeStatusStage : UInt32 := 4

def trbTypeLink : UInt32 := 6

def trbTypeEnableSlot : UInt32 := 9

def trbTypeAddressDevice : UInt32 := 11

def trbTypeConfigureEndpoint : UInt32 := 12

def trbTypeTransferEvent : UInt32 := 32

def trbTypeCommandCompletionEvent : UInt32 := 33

namespace Trb

/-- A cleared entry. -/
def zero : Trb := ⟨0, 0, 0⟩

/-- Bit 0 of `control`. -/
def cycle (t : Trb) : Bool := t.control &&& 1 ≠ 0

def type (t : Trb) : UInt32 := (t.control >>> 10) &&& 0x3F

/-- The toggle bit of a Link TRB. -/
def toggles (t : Trb) : Bool := t.control &&& 2 ≠ 0

def completionCode (t : Trb) : UInt32 := (t.status >>> 24) &&& 0xFF

def slotId (t : Trb) : UInt32 := (t.control >>> 24) &&& 0xFF

/-- The endpoint of a Transfer Event. -/
def endpointId (t : Trb) : UInt32 := (t.control >>> 16) &&& 0x1F

/-- The entry with its cycle bit set or cleared. -/
def withCycle (t : Trb) (c : Bool) : Trb :=
  { t with control := if c then t.control ||| 1 else t.control &&& ~~~1 }

@[simp] theorem zero_cycle : zero.cycle = false := rfl

theorem or_one_shiftRight (x k : UInt32) (hk : 0 < k.toNat % 32) : (x ||| 1) >>> k = x >>> k := by
  apply UInt32.toBitVec_inj.mp
  ext i hi
  simp only [UInt32.toBitVec_shiftRight, UInt32.toBitVec_or, BitVec.ushiftRight_eq',
    BitVec.getElem_ushiftRight, BitVec.getLsbD_or]
  simp
  omega

theorem and_not_one_shiftRight (x k : UInt32) (hk : 0 < k.toNat % 32) :
    (x &&& ~~~1) >>> k = x >>> k := by
  have hmask (j : ℕ) (hpos : 0 < j) (hj : j < 32) : (4294967294#32).getLsbD j = true := by
    interval_cases j <;> rfl
  apply UInt32.toBitVec_inj.mp
  ext i hi
  simp
  intro h
  exact hmask _ (by omega) (BitVec.lt_of_getLsbD h)

/-- The fields above the cycle bit are kept. -/
theorem withCycle_shift (t : Trb) (c : Bool) (k : UInt32) (hk : 0 < k.toNat % 32) :
    (t.withCycle c).control >>> k = t.control >>> k := by
  cases c with
  | true => exact or_one_shiftRight t.control k hk
  | false => exact and_not_one_shiftRight t.control k hk

@[simp] theorem withCycle_cycle (t : Trb) (c : Bool) : (t.withCycle c).cycle = c := by
  cases c with
  | true =>
    apply decide_eq_true
    change (t.control ||| 1) &&& 1 ≠ 0
    intro h
    have hbit := congrArg (fun b => b.toBitVec.getLsbD 0) h
    simp at hbit
  | false =>
    apply decide_eq_false
    change ¬ (t.control &&& ~~~1) &&& 1 ≠ 0
    have hmask : (~~~1 &&& 1 : UInt32) = 0 := by decide
    rw [UInt32.and_assoc, hmask, UInt32.and_zero]
    exact not_not_intro rfl

@[simp] theorem withCycle_parameter (t : Trb) (c : Bool) :
    (t.withCycle c).parameter = t.parameter := rfl

@[simp] theorem withCycle_completionCode (t : Trb) (c : Bool) :
    (t.withCycle c).completionCode = t.completionCode := rfl

@[simp] theorem withCycle_type (t : Trb) (c : Bool) : (t.withCycle c).type = t.type := by
  rw [type, withCycle_shift t c 10 (by decide), type]

@[simp] theorem withCycle_slotId (t : Trb) (c : Bool) : (t.withCycle c).slotId = t.slotId := by
  rw [slotId, withCycle_shift t c 24 (by decide), slotId]

@[simp] theorem withCycle_endpointId (t : Trb) (c : Bool) :
    (t.withCycle c).endpointId = t.endpointId := by
  rw [endpointId, withCycle_shift t c 16 (by decide), endpointId]

end Trb

/-! ## The controller on a ring -/

/-- Where the controller reads on, and the cycle bit it looks for. -/
structure Consumer where
  index : ℕ
  cycle : Bool
  deriving DecidableEq, Repr

namespace Consumer

/-- Before the first TRB. -/
def start : Consumer := ⟨0, true⟩

/-- The cycle bit matches. -/
def Sees (ring : ℕ → Trb) (c : Consumer) : Prop := (ring c.index).cycle = c.cycle

instance (ring : ℕ → Trb) (c : Consumer) : Decidable (c.Sees ring) :=
  inferInstanceAs (Decidable (_ = _))

/-- The next position.  A Link TRB leads to the address in it; `base` is the address of the ring. -/
def next (base : UInt64) (ring : ℕ → Trb) (c : Consumer) : Consumer :=
  let trb := ring c.index
  if trb.type = trbTypeLink then
    ⟨((trb.parameter - base) / 16).toNat, if trb.toggles then !c.cycle else c.cycle⟩
  else ⟨c.index + 1, c.cycle⟩

/-- After a doorbell the controller executes the TRBs `ts` and stops where the bit does not
match. -/
inductive Settles (base : UInt64) (ring : ℕ → Trb) : Consumer → List Trb → Consumer → Prop
  | stop {c : Consumer} : ¬ c.Sees ring → Settles base ring c [] c
  | link {c c' : Consumer} {ts : List Trb} : c.Sees ring → (ring c.index).type = trbTypeLink →
      Settles base ring (c.next base ring) ts c' → Settles base ring c ts c'
  | execute {c c' : Consumer} {ts : List Trb} : c.Sees ring → (ring c.index).type ≠ trbTypeLink →
      Settles base ring (c.next base ring) ts c' →
      Settles base ring c (ring c.index :: ts) c'

variable {base : UInt64} {ring : ℕ → Trb} {c c' d d' : Consumer} {ts us : List Trb}

theorem Settles.unique (h : Settles base ring c ts d) (h' : Settles base ring c us d') :
    ts = us ∧ d = d' := by
  induction h generalizing us d' with
  | stop hnot =>
    cases h' with
    | stop _ => exact ⟨rfl, rfl⟩
    | link hsees _ _ => exact absurd hsees hnot
    | execute hsees _ _ => exact absurd hsees hnot
  | link hsees hlink _ ih =>
    cases h' with
    | stop hnot => exact absurd hsees hnot
    | link _ _ hrest => exact ih hrest
    | execute _ hother _ => exact absurd hlink hother
  | execute hsees hother _ ih =>
    cases h' with
    | stop hnot => exact absurd hsees hnot
    | link _ hlink _ => exact absurd hlink hother
    | execute _ _ hrest =>
      obtain ⟨rfl, rfl⟩ := ih hrest
      exact ⟨rfl, rfl⟩

end Consumer

end Rhoudveine.Xhci
