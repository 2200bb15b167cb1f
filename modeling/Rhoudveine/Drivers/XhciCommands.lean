import Rhoudveine.Drivers.Xhci
import Rhoudveine.Lib.Run

/-!
# The command ring

The part of `xhci_send_command` that writes the TRB, and the controller on the ring.
-/

namespace Rhoudveine.Xhci

def xhciCmdRingSize : ℕ := 32

/-! ## The driver -/

/-- The commands that the driver sends.  Input contexts are named by their addresses. -/
inductive Command
  | enableSlot
  | addressDevice (inputCtx : UInt64) (slotId : UInt32)
  | configureEndpoint (inputCtx : UInt64) (slotId : UInt32)
  deriving DecidableEq, Repr

def Command.trb : Command → Trb
  | enableSlot => ⟨0, 0, trbTypeEnableSlot <<< 10⟩
  | addressDevice inputCtx slotId =>
    ⟨inputCtx, 0, (slotId <<< 24) ||| (trbTypeAddressDevice <<< 10)⟩
  | configureEndpoint inputCtx slotId =>
    ⟨inputCtx, 0, (slotId <<< 24) ||| (trbTypeConfigureEndpoint <<< 10)⟩

structure CmdRing where
  ring : ℕ → Trb
  enqueue : ℕ
  cycle : Bool

/-- `base` is the address of the ring. -/
def xhciInitCmdRing (base : UInt64) : CmdRing where
  ring := Function.update (fun _ => Trb.zero) (xhciCmdRingSize - 1)
    ⟨base, 0, (trbTypeLink <<< 10) ||| ((1 : UInt32) <<< 1) ||| 1⟩
  enqueue := 0
  cycle := true

/-- Up to the doorbell; `none` if the ring is full.  The Link TRB is left as it is. -/
def xhciEnqueueCommand (r : CmdRing) (command : Trb) : Option CmdRing :=
  let next := (r.enqueue + 1) % xhciCmdRingSize
  if next = xhciCmdRingSize - 1 ∨ next = 0 then none
  else
    let ring := Function.update r.ring r.enqueue (command.withCycle r.cycle)
    let enqueue := r.enqueue + 1
    if enqueue = xhciCmdRingSize - 1 then some ⟨ring, 0, !r.cycle⟩
    else some ⟨ring, enqueue, r.cycle⟩

/-! ## The driver and the controller -/

/-- The ring between the driver and the controller, with the TRBs executed so far. -/
structure Commands where
  cmd : CmdRing
  controller : Consumer
  executed : List Trb

def Commands.start (base : UInt64) : Commands := ⟨xhciInitCmdRing base, Consumer.start, []⟩

/-- One call, and whether it was accepted.  The controller has completed the command before the
call returns. -/
inductive Commands.Step (base : UInt64) : Commands → Command × Bool → Commands → Prop
  | sent {c : Commands} {command : Command} {r : CmdRing} {ts : List Trb} {d : Consumer} :
      xhciEnqueueCommand c.cmd command.trb = some r → c.controller.Settles base r.ring ts d →
      Step base c (command, true) ⟨r, d, c.executed ++ ts⟩
  | full {c : Commands} {command : Command} : xhciEnqueueCommand c.cmd command.trb = none →
      Step base c (command, false) c

/-- All calls are accepted, and their commands are executed in order, each once. -/
structure Commands.InOrder (c : Commands) (calls : List (Command × Bool)) : Prop where
  accepted : ∀ call ∈ calls, call.2 = true
  executed : List.Forall₂ (fun call t => ∃ cycle, t = call.1.trb.withCycle cycle) calls c.executed

/-! ## The TRBs -/

/-- The slot is above the type. -/
theorem type_of_slot (slotId type : UInt32) (ht : type &&& 0x3F = type) :
    (((slotId <<< 24) ||| (type <<< 10)) >>> 10) &&& 0x3F = type := by
  have hlow (i : ℕ) (hi : i < 6) : (63#32).getLsbD i = true := by
    interval_cases i <;> rfl
  have hhigh (i : ℕ) (hi : 6 ≤ i) (hi' : i < 32) : (63#32).getLsbD i = false := by
    interval_cases i <;> rfl
  apply UInt32.toBitVec_inj.mp
  ext i hi
  have h := congrArg (fun x => x.toBitVec.getLsbD i) ht
  simp only [UInt32.toBitVec_and, BitVec.getLsbD_and] at h
  simp only [← BitVec.getLsbD_eq_getElem] at *
  simp at h ⊢
  by_cases hsix : i < 6
  · simp [hlow i hsix, show 10 + i < 24 by omega, show 10 + i < 32 by omega]
  · simp [hhigh i (by omega) hi] at h ⊢
    exact h

theorem Command.type_ne_link (command : Command) : command.trb.type ≠ trbTypeLink := by
  cases command with
  | enableSlot => decide
  | addressDevice inputCtx slotId =>
    have htype := type_of_slot slotId trbTypeAddressDevice (by decide)
    unfold Trb.type
    unfold Command.trb
    dsimp only
    rw [htype]
    decide
  | configureEndpoint inputCtx slotId =>
    have htype := type_of_slot slotId trbTypeConfigureEndpoint (by decide)
    unfold Trb.type
    unfold Command.trb
    dsimp only
    rw [htype]
    decide

/-! ## The first lap -/

/-- After `n` commands: the driver and the controller are at slot `n`, and the slots from there to
the Link TRB are clear. -/
structure Commands.At (c : Commands) (n : ℕ) : Prop where
  le : n ≤ 30
  enqueue : c.cmd.enqueue = n
  cycle : c.cmd.cycle = true
  controller : c.controller = ⟨n, true⟩
  clear : ∀ i, n ≤ i → i < 31 → c.cmd.ring i = Trb.zero

variable {base : UInt64} {c c' : Commands} {n : ℕ} {command : Command} {accepted : Bool}

theorem Commands.At.start (base : UInt64) : (Commands.start base).At 0 := by
  constructor
  · exact Nat.zero_le 30
  · rfl
  · rfl
  · rfl
  · intro i _ hi
    have hne : i ≠ xhciCmdRingSize - 1 := by
      unfold xhciCmdRingSize
      omega
    unfold Commands.start xhciInitCmdRing
    dsimp only
    rw [Function.update_of_ne hne]

/-- Slot 30 is never used: the ring counts as full. -/
theorem Commands.At.full (h : c.At 30) (command : Trb) :
    xhciEnqueueCommand c.cmd command = none := by
  rw [xhciEnqueueCommand, h.enqueue]
  rfl

theorem Commands.At.enqueued (h : c.At n) (hn : n < 30) (command : Trb) :
    xhciEnqueueCommand c.cmd command =
      some ⟨Function.update c.cmd.ring n (command.withCycle true), n + 1, true⟩ := by
  have hnext : (n + 1) % xhciCmdRingSize = n + 1 := by
    apply Nat.mod_eq_of_lt
    unfold xhciCmdRingSize
    omega
  rw [xhciEnqueueCommand, h.enqueue, h.cycle]
  dsimp only
  rw [hnext, if_neg (by unfold xhciCmdRingSize; omega), if_neg (by unfold xhciCmdRingSize; omega)]

/-- The controller executes the new command and stops at the next slot. -/
theorem Commands.At.settles (h : c.At n) (hn : n < 30) (command : Command) :
    c.controller.Settles base (Function.update c.cmd.ring n (command.trb.withCycle true))
      [command.trb.withCycle true] ⟨n + 1, true⟩ := by
  let ring := Function.update c.cmd.ring n (command.trb.withCycle true)
  have htrb : ring n = command.trb.withCycle true := Function.update_self ..
  have hnext : ring (n + 1) = Trb.zero := by
    have hne : n + 1 ≠ n := by omega
    exact (Function.update_of_ne hne ..).trans (h.clear (n + 1) (by omega) (by omega))
  have htype : (ring n).type ≠ trbTypeLink := by
    rw [htrb, Trb.withCycle_type]
    exact command.type_ne_link
  have hsees : (Consumer.mk n true).Sees ring := by
    change (ring n).cycle = true
    rw [htrb, Trb.withCycle_cycle]
  have hstop : ¬ (Consumer.mk (n + 1) true).Sees ring := by
    change ¬ (ring (n + 1)).cycle = true
    rw [hnext]
    exact Bool.false_ne_true
  have hstep : (Consumer.mk n true).next base ring = ⟨n + 1, true⟩ := if_neg htype
  have hexecute : (Consumer.mk n true).Settles base ring [ring n] ⟨n + 1, true⟩ := by
    apply Consumer.Settles.execute hsees htype
    rw [hstep]
    exact .stop hstop
  rw [htrb] at hexecute
  rw [h.controller]
  exact hexecute

/-- A call before the ring is full. -/
theorem Commands.At.step (h : c.At n) (hn : n < 30)
    (hstep : Commands.Step base c (command, accepted) c') :
    accepted = true ∧ c'.At (n + 1) ∧ c'.executed = c.executed ++ [command.trb.withCycle true] := by
  have henqueue := h.enqueued hn command.trb
  cases hstep with
  | sent hsent hsettles =>
    rw [henqueue] at hsent
    obtain rfl := Option.some.inj hsent
    obtain ⟨rfl, rfl⟩ := hsettles.unique (h.settles hn command)
    refine ⟨rfl, ⟨hn, rfl, rfl, rfl, ?_⟩, rfl⟩
    intro i hi hi'
    have hne : i ≠ n := by omega
    exact (Function.update_of_ne hne ..).trans (h.clear i (by omega) hi')
  | full hfull =>
    rw [henqueue] at hfull
    cases hfull

/-! ## Runs -/

/-- A run within the first 30 commands. -/
theorem Commands.At.run {calls : List (Command × Bool)} (h : c.At n)
    (hcalls : n + calls.length ≤ 30) (hrun : Run (Commands.Step base) c calls c') :
    (∀ call ∈ calls, call.2 = true) ∧
      c'.executed = c.executed ++ calls.map (·.1.trb.withCycle true) := by
  induction hrun generalizing n with
  | nil => exact ⟨fun call hcall => absurd hcall List.not_mem_nil, (List.append_nil _).symm⟩
  | @cons c d c' call calls hstep hrest ih =>
    rw [List.length_cons] at hcalls
    obtain ⟨haccepted, hd, hexecuted⟩ := h.step (by omega) hstep
    obtain ⟨hall, hexecuted'⟩ := ih hd (by omega)
    refine ⟨List.forall_mem_cons.mpr ⟨haccepted, hall⟩, ?_⟩
    rw [hexecuted', hexecuted, List.append_assoc, List.map_cons]
    rfl

/-- A longer run has a call that is refused. -/
theorem Commands.At.refused {calls : List (Command × Bool)} (h : c.At n)
    (hcalls : 30 < n + calls.length) (hrun : Run (Commands.Step base) c calls c') :
    ∃ call ∈ calls, call.2 = false := by
  induction hrun generalizing n with
  | nil =>
    have hle := h.le
    rw [List.length_nil] at hcalls
    omega
  | @cons c d c' call calls hstep hrest ih =>
    rw [List.length_cons] at hcalls
    by_cases hn : n < 30
    · obtain ⟨-, hd, -⟩ := h.step hn hstep
      obtain ⟨call', hmem, hrefused⟩ := ih hd (by omega)
      exact ⟨call', List.mem_cons_of_mem call hmem, hrefused⟩
    · obtain rfl : n = 30 := by
        have hle := h.le
        omega
      refine ⟨call, List.mem_cons_self, ?_⟩
      cases hstep with
      | sent hsent _ =>
        rw [h.full] at hsent
        cases hsent
      | full _ => rfl

/-- The calls are accepted and executed in order as long as there are at most 30 of them. -/
theorem commands_inOrder_iff {calls : List (Command × Bool)}
    (hrun : Run (Commands.Step base) (Commands.start base) calls c) :
    c.InOrder calls ↔ calls.length ≤ 30 := by
  constructor
  · intro h
    by_contra hlong
    obtain ⟨call, hmem, hrefused⟩ := (Commands.At.start base).refused (by omega) hrun
    rw [h.accepted call hmem] at hrefused
    cases hrefused
  · intro hshort
    obtain ⟨haccepted, hexecuted⟩ := (Commands.At.start base).run (by omega) hrun
    refine ⟨haccepted, ?_⟩
    have hstart : (Commands.start base).executed = [] := rfl
    rw [hexecuted, hstart, List.nil_append, List.forall₂_map_right_iff]
    exact List.forall₂_same.mpr fun call _ => ⟨true, rfl⟩

/-- Any number of calls can be made. -/
theorem Commands.exists_run (base : UInt64) (k : ℕ) :
    ∃ calls c, calls.length = k ∧ Run (Commands.Step base) (Commands.start base) calls c := by
  have hrun (k : ℕ) : ∃ calls c n, calls.length = k ∧ c.At n ∧
      Run (Commands.Step base) (Commands.start base) calls c := by
    induction k with
    | zero => exact ⟨[], _, 0, rfl, Commands.At.start base, .nil _⟩
    | succ k ih =>
      obtain ⟨calls, c, n, hlength, hc, hrun⟩ := ih
      by_cases hn : n < 30
      · have hsettles : c.controller.Settles base _ _ _ := hc.settles hn Command.enableSlot
        have hstep := Commands.Step.sent (hc.enqueued hn Command.enableSlot.trb) hsettles
        refine ⟨calls ++ [(.enableSlot, true)], _, n + 1, ?_, (hc.step hn hstep).2.1,
          hrun.snoc hstep⟩
        rw [List.length_append, hlength, List.length_singleton]
      · obtain rfl : n = 30 := by
          have hle := hc.le
          omega
        refine ⟨calls ++ [(.enableSlot, false)], c, 30, ?_, hc, hrun.snoc (.full (hc.full _))⟩
        rw [List.length_append, hlength, List.length_singleton]
  obtain ⟨calls, c, -, hlength, -, h⟩ := hrun k
  exact ⟨calls, c, hlength, h⟩

theorem commands_inOrder_iff_two : ∃ calls c, calls.length = 2 ∧ Commands.InOrder c calls := by
  obtain ⟨calls, c, hlength, hrun⟩ := Commands.exists_run 0x1000 2
  refine ⟨calls, c, hlength, (commands_inOrder_iff hrun).mpr ?_⟩
  rw [hlength]
  norm_num

/-- Of 31 calls one is refused. -/
theorem thirtyOne_refused : ∃ calls c, calls.length = 31 ∧
    Run (Commands.Step 0x1000) (Commands.start 0x1000) calls c ∧ ¬ Commands.InOrder c calls := by
  obtain ⟨calls, c, hlength, hrun⟩ := Commands.exists_run 0x1000 31
  refine ⟨calls, c, hlength, hrun, fun h => ?_⟩
  obtain ⟨call, hmem, hrefused⟩ := (Commands.At.start 0x1000).refused (by omega) hrun
  rw [h.accepted call hmem] at hrefused
  cases hrefused

end Rhoudveine.Xhci
