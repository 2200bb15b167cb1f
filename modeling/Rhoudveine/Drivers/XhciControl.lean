import Rhoudveine.Drivers.Xhci
import Rhoudveine.Lib.Run

/-!
# Control transfers

The two routines that write to the EP0 ring of a slot, and the controller on that ring.
-/

namespace Rhoudveine.Xhci

/-! ## The driver -/

/-- `ring[0]`, `ring[1]` and so on. -/
def writeTrbs (ring : ℕ → Trb) : (i : ℕ) → List Trb → ℕ → Trb
  | _, [] => ring
  | i, t :: ts => writeTrbs (Function.update ring i t) (i + 1) ts

/-- GET_DESCRIPTOR for 18 bytes of the device descriptor. -/
def descriptorSetup : UInt64 :=
  (0x80 : UInt64) ||| ((0x06 : UInt64) <<< 8) ||| ((0x01 : UInt64) <<< 24) |||
    ((0x00 : UInt64) <<< 16) ||| ((0x0000 : UInt64) <<< 32) ||| ((18 : UInt64) <<< 48)

/-- SET_PROTOCOL to the boot protocol. -/
def protocolSetup : UInt64 :=
  (0x21 : UInt64) ||| ((0x0B : UInt64) <<< 8) ||| ((0x00 : UInt64) <<< 16) |||
    ((0x00 : UInt64) <<< 32) ||| ((0x00 : UInt64) <<< 48)

/-- The TRBs of `xhci_get_device_descriptor`; `descBuf` is the address of the buffer. -/
def descriptorTrbs (descBuf : UInt64) : List Trb :=
  [⟨descriptorSetup, 8,
      (trbTypeSetupStage <<< 10) ||| ((3 : UInt32) <<< 16) ||| ((1 : UInt32) <<< 6) ||| 1⟩,
    ⟨descBuf, 18,
      (trbTypeDataStage <<< 10) ||| ((1 : UInt32) <<< 16) ||| ((1 : UInt32) <<< 5) ||| 1⟩,
    ⟨0, 0, (trbTypeStatusStage <<< 10) ||| ((1 : UInt32) <<< 5) ||| 1⟩]

/-- The TRBs of `xhci_set_boot_protocol`. -/
def protocolTrbs : List Trb :=
  [⟨protocolSetup, 8, (trbTypeSetupStage <<< 10) ||| ((1 : UInt32) <<< 6) ||| 1⟩,
    ⟨0, 0,
      (trbTypeStatusStage <<< 10) ||| ((1 : UInt32) <<< 5) ||| ((1 : UInt32) <<< 16) ||| 1⟩]

inductive ControlTransfer
  | deviceDescriptor
  | bootProtocol
  deriving DecidableEq, Repr

def ControlTransfer.trbs (descBuf : UInt64) : ControlTransfer → List Trb
  | deviceDescriptor => descriptorTrbs descBuf
  | bootProtocol => protocolTrbs

/-- The number of entries that are cleared first. -/
def ControlTransfer.cleared : ControlTransfer → ℕ
  | deviceDescriptor => 4
  | bootProtocol => 2

/-- The ring when the doorbell is rung. -/
def ControlTransfer.write (descBuf : UInt64) (t : ControlTransfer) (ring : ℕ → Trb) : ℕ → Trb :=
  writeTrbs (fun i => if i < t.cleared then Trb.zero else ring i) 0 (t.trbs descBuf)

/-! ## The driver and the controller -/

structure Ep0 where
  ring : ℕ → Trb
  controller : Consumer

/-- After `xhci_address_device` on a ring that has not been used. -/
def Ep0.start : Ep0 := ⟨fun _ => Trb.zero, Consumer.start⟩

/-- One transfer, and the TRBs that its doorbell makes the controller execute.  `base` is the
address of the ring. -/
inductive Ep0.Step (base descBuf : UInt64) : Ep0 → ControlTransfer × List Trb → Ep0 → Prop
  | doorbell {e : Ep0} {t : ControlTransfer} {ts : List Trb} {d : Consumer} :
      e.controller.Settles base (t.write descBuf e.ring) ts d →
      Step base descBuf e (t, ts) ⟨t.write descBuf e.ring, d⟩

/-- Each doorbell executes the TRBs of its own transfer. -/
def Exact (descBuf : UInt64) (transfers : List (ControlTransfer × List Trb)) : Prop :=
  ∀ x ∈ transfers, x.2 = x.1.trbs descBuf

/-! ## One transfer -/

variable {base descBuf : UInt64} {e e' : Ep0} {ring : ℕ → Trb} {t : ControlTransfer}

theorem writeTrbs_of_lt (ring : ℕ → Trb) (ts : List Trb) {i j : ℕ} (hj : j < i) :
    writeTrbs ring i ts j = ring j := by
  induction ts generalizing ring i with
  | nil => rfl
  | cons t ts ih => rw [writeTrbs, ih _ (by omega), Function.update_of_ne hj.ne]

theorem writeTrbs_get (ring : ℕ → Trb) (ts : List Trb) (i : ℕ) {k : ℕ} {x : Trb}
    (hx : ts[k]? = some x) : writeTrbs ring i ts (i + k) = x := by
  induction ts generalizing ring i k with
  | nil => cases hx
  | cons t ts ih =>
    cases k with
    | zero =>
      rw [writeTrbs, add_zero, writeTrbs_of_lt _ _ (Nat.lt_succ_self i), Function.update_self]
      exact Option.some.inj hx
    | succ k =>
      have hk : i + (k + 1) = i + 1 + k := by omega
      rw [writeTrbs, hk]
      exact ih _ _ hx

theorem writeTrbs_rest (ring : ℕ → Trb) (ts : List Trb) {i j : ℕ} (hj : i + ts.length ≤ j) :
    writeTrbs ring i ts j = ring j := by
  induction ts generalizing ring i with
  | nil => rfl
  | cons t ts ih =>
    rw [List.length_cons] at hj
    rw [writeTrbs, ih _ (by omega), Function.update_of_ne (by omega)]

/-- Behind the TRBs of a transfer. -/
theorem ControlTransfer.write_rest (t : ControlTransfer) (descBuf : UInt64) (ring : ℕ → Trb)
    {i : ℕ} (hi : (t.trbs descBuf).length ≤ i) :
    t.write descBuf ring i = if i < t.cleared then Trb.zero else ring i :=
  writeTrbs_rest _ _ (by omega)

theorem ControlTransfer.write_get (t : ControlTransfer) (descBuf : UInt64) (ring : ℕ → Trb)
    {i : ℕ} {x : Trb} (hx : (t.trbs descBuf)[i]? = some x) : t.write descBuf ring i = x := by
  have hget := writeTrbs_get (fun i => if i < t.cleared then Trb.zero else ring i)
    (t.trbs descBuf) 0 hx
  rw [Nat.zero_add] at hget
  exact hget

/-- All TRBs are written with the first lap's cycle bit. -/
theorem ControlTransfer.trbs_cycle (t : ControlTransfer) (descBuf : UInt64) :
    ∀ trb ∈ t.trbs descBuf, trb.cycle = true ∧ trb.type ≠ trbTypeLink := by
  cases t with
  | deviceDescriptor =>
    simp [trbs, descriptorTrbs, Trb.cycle, Trb.type]
    decide
  | bootProtocol =>
    simp [trbs, protocolTrbs, Trb.cycle, Trb.type]
    decide

/-- The controller executes the TRBs `ts` from slot `i` on and stops behind them. -/
theorem settles_of_trbs {ts : List Trb} {i : ℕ}
    (hts : ∀ trb ∈ ts, trb.cycle = true ∧ trb.type ≠ trbTypeLink)
    (hget : ∀ k x, ts[k]? = some x → ring (i + k) = x)
    (hstop : (ring (i + ts.length)).cycle = false) :
    (Consumer.mk i true).Settles base ring ts ⟨i + ts.length, true⟩ := by
  induction ts generalizing i with
  | nil =>
    apply Consumer.Settles.stop
    change ¬ (ring i).cycle = true
    rw [List.length_nil, add_zero] at hstop
    rw [hstop]
    exact Bool.false_ne_true
  | cons t ts ih =>
    obtain ⟨⟨hcycle, htype⟩, hts⟩ := List.forall_mem_cons.mp hts
    have hfirst : ring i = t := hget 0 t rfl
    have hshift : i + (t :: ts).length = i + 1 + ts.length := by
      rw [List.length_cons]
      omega
    rw [hshift] at hstop ⊢
    have hrest : ∀ k x, ts[k]? = some x → ring (i + 1 + k) = x := by
      intro k x hx
      have hk : i + 1 + k = i + (k + 1) := by omega
      rw [hk]
      exact hget (k + 1) x hx
    have hsees : (Consumer.mk i true).Sees ring := by
      change (ring i).cycle = true
      rw [hfirst]
      exact hcycle
    have hother : (ring i).type ≠ trbTypeLink := by
      rw [hfirst]
      exact htype
    have hstep : (Consumer.mk i true).next base ring = ⟨i + 1, true⟩ := if_neg hother
    have hexecute := Consumer.Settles.execute hsees hother (hstep ▸ ih hts hrest hstop)
    rw [hfirst] at hexecute
    exact hexecute

/-! ## The first transfer and the second -/

theorem first_settles (t : ControlTransfer) (base descBuf : UInt64) :
    Consumer.start.Settles base (t.write descBuf fun _ => Trb.zero) (t.trbs descBuf)
      ⟨(t.trbs descBuf).length, true⟩ := by
  have hstop : (t.write descBuf (fun _ => Trb.zero) (0 + (t.trbs descBuf).length)).cycle =
      false := by
    rw [t.write_rest descBuf _ (by omega), ite_self]
    rfl
  have hget : ∀ k x, (t.trbs descBuf)[k]? = some x →
      t.write descBuf (fun _ => Trb.zero) (0 + k) = x := by
    intro k x hx
    rw [Nat.zero_add]
    exact t.write_get descBuf _ hx
  have hsettles : (Consumer.mk 0 true).Settles base _ _ _ :=
    settles_of_trbs (t.trbs_cycle descBuf) hget hstop
  rw [Nat.zero_add] at hsettles
  exact hsettles

/-- The controller goes on behind the first transfer and misses as many TRBs of the second. -/
theorem second_settles (t u : ControlTransfer) (base descBuf : UInt64) :
    ∃ d, (Consumer.mk (t.trbs descBuf).length true).Settles base
      (u.write descBuf (t.write descBuf fun _ => Trb.zero))
      ((u.trbs descBuf).drop (t.trbs descBuf).length) d := by
  let n := (t.trbs descBuf).length
  have hts : ∀ trb ∈ (u.trbs descBuf).drop n, trb.cycle = true ∧ trb.type ≠ trbTypeLink :=
    fun trb hmem => u.trbs_cycle descBuf trb (List.mem_of_mem_drop hmem)
  have hget : ∀ k x, ((u.trbs descBuf).drop n)[k]? = some x →
      u.write descBuf (t.write descBuf fun _ => Trb.zero) (n + k) = x := by
    intro k x hx
    rw [List.getElem?_drop] at hx
    exact u.write_get descBuf _ hx
  have hstop : (u.write descBuf (t.write descBuf fun _ => Trb.zero)
      (n + ((u.trbs descBuf).drop n).length)).cycle = false := by
    rw [u.write_rest descBuf _ (by rw [List.length_drop]; omega),
      t.write_rest descBuf _ (Nat.le_add_right n _), ite_self, ite_self]
    rfl
  exact ⟨_, settles_of_trbs hts hget hstop⟩

theorem trbs_length_pos (t : ControlTransfer) (descBuf : UInt64) :
    0 < (t.trbs descBuf).length := by
  cases t with
  | deviceDescriptor => exact Nat.succ_pos 2
  | bootProtocol => exact Nat.succ_pos 1

/-! ## Sequences -/

theorem Ep0.Step.settles {x : ControlTransfer × List Trb} (h : Ep0.Step base descBuf e x e') :
    ∃ d, e.controller.Settles base (x.1.write descBuf e.ring) x.2 d ∧
      e' = ⟨x.1.write descBuf e.ring, d⟩ := by
  cases h with
  | doorbell hsettles => exact ⟨_, hsettles, rfl⟩

/-- Only the first doorbell executes its own transfer. -/
theorem doorbells_exact_iff {transfers : List (ControlTransfer × List Trb)}
    (hrun : Run (Ep0.Step base descBuf) Ep0.start transfers e) :
    Exact descBuf transfers ↔ transfers.length ≤ 1 := by
  cases hrun with
  | nil => exact iff_of_true (fun x hx => absurd hx List.not_mem_nil) (Nat.zero_le 1)
  | @cons _ e₁ _ x rest hfirst hrest =>
    obtain ⟨t, ts⟩ := x
    obtain ⟨d, hsettles, rfl⟩ := hfirst.settles
    obtain ⟨rfl, rfl⟩ := hsettles.unique (first_settles t base descBuf)
    cases hrest with
    | nil =>
      refine iff_of_true ?_ le_rfl
      intro x hx
      rw [List.mem_singleton.mp hx]
    | @cons _ e₂ _ y rest hsecond _ =>
      obtain ⟨u, us⟩ := y
      obtain ⟨d₂, hsettles₂, -⟩ := hsecond.settles
      obtain ⟨d', hd'⟩ := second_settles t u base descBuf
      obtain ⟨rfl, -⟩ := hsettles₂.unique hd'
      refine iff_of_false (fun hexact => ?_) (by rw [List.length_cons, List.length_cons]; omega)
      have hlength := congrArg List.length
        (hexact _ (List.mem_cons_of_mem _ List.mem_cons_self))
      have hpos := trbs_length_pos t descBuf
      have hpos' := trbs_length_pos u descBuf
      dsimp only at hlength
      rw [List.length_drop] at hlength
      omega

theorem doorbells_exact_iff_one :
    Exact 0x2000 [(.deviceDescriptor, descriptorTrbs 0x2000)] :=
  (doorbells_exact_iff (.cons (.doorbell (first_settles .deviceDescriptor 0x1000 0x2000))
    (.nil _))).mpr le_rfl

/-- The doorbell of SET_PROTOCOL executes nothing. -/
theorem protocol_not_executed :
    ∃ e, Run (Ep0.Step 0x1000 0x2000) Ep0.start
        [(.deviceDescriptor, descriptorTrbs 0x2000), (.bootProtocol, [])] e ∧
      ¬ Exact 0x2000 [(.deviceDescriptor, descriptorTrbs 0x2000), (.bootProtocol, [])] := by
  obtain ⟨d, hd⟩ := second_settles .deviceDescriptor .bootProtocol 0x1000 0x2000
  refine ⟨_, .cons (.doorbell (first_settles .deviceDescriptor 0x1000 0x2000))
    (.cons (.doorbell hd) (.nil _)), fun hexact => ?_⟩
  have hsame := hexact _ (List.mem_cons_of_mem _ List.mem_cons_self)
  cases hsame

end Rhoudveine.Xhci
