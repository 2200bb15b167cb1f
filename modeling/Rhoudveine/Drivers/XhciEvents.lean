import Rhoudveine.Drivers.XhciCommands
import Rhoudveine.Drivers.XhciKeyboard

/-!
# The event ring

The controller posts events, and four loops of the driver take them: that of `xhci_send_command`,
the flush before a port is enumerated, that of `xhci_get_device_descriptor` and that of
`usb_kbd_poll`.  The driver runs one of them at a time, and the controller may post between any two
rounds.
-/

namespace Rhoudveine.Xhci
open CycleRing

def xhciEventRingSize : ℕ := 32

/-! ## The ring -/

/-- The ring with both ends.  ERDP is kept as the index of the entry that it points to. -/
structure EventRing where
  ring : ℕ → Trb
  /-- `event_ring_dequeue_ptr`. -/
  dequeue : ℕ
  /-- `event_ring_cycle_state`. -/
  cycle : Bool
  erdp : ℕ
  /-- Where the controller writes, and its cycle bit. -/
  enqueue : ℕ
  producerCycle : Bool
  /-- All events so far, those that were taken, and their number when ERDP was written last. -/
  posted : List Trb
  taken : List Trb
  acked : ℕ

namespace EventRing

/-- After `xhci_init`. -/
def start : EventRing := ⟨fun _ => Trb.zero, 0, true, 0, 0, true, [], [], 0⟩

/-- The controller posts an event, unless that would go past the entry that ERDP points to. -/
def post (e : EventRing) (ev : Trb) : Option EventRing :=
  if e.posted.length < e.acked + xhciEventRingSize then
    let ev := ev.withCycle e.producerCycle
    let enqueue := (e.enqueue + 1) % xhciEventRingSize
    some { e with
      ring := Function.update e.ring e.enqueue ev
      enqueue := enqueue
      producerCycle := if enqueue = 0 then !e.producerCycle else e.producerCycle
      posted := e.posted ++ [ev] }
  else none

/-- What all four loops do with the entry at the dequeue pointer: `none` if its cycle bit does not
match. -/
def take (e : EventRing) : Option (Trb × EventRing) :=
  let ev := e.ring e.dequeue
  if ev.cycle = e.cycle then
    let dequeue := (e.dequeue + 1) % xhciEventRingSize
    some (ev, { e with
      dequeue := dequeue
      cycle := if dequeue = 0 then !e.cycle else e.cycle
      taken := e.taken ++ [ev] })
  else none

def writeErdp (e : EventRing) : EventRing := { e with erdp := e.dequeue, acked := e.taken.length }

/-- The invariant of the ring. -/
structure Inv (e : EventRing) : Prop where
  holds : Holds 32 Trb.cycle e.ring e.posted
  taken : e.taken <+: e.posted
  acked_le : e.acked ≤ e.taken.length
  space : e.posted.length ≤ e.acked + 32
  dequeue : e.dequeue = e.taken.length % 32
  cycle : e.cycle = lapBit 32 e.taken.length
  enqueue : e.enqueue = e.posted.length % 32
  producerCycle : e.producerCycle = lapBit 32 e.posted.length
  erdp : e.erdp = e.acked % 32

variable {e e' : EventRing} {ev : Trb}

theorem Inv.start : start.Inv := by
  constructor
  · exact Holds.start fun _ _ => Trb.zero_cycle
  · exact List.prefix_refl []
  · exact le_rfl
  · exact Nat.zero_le _
  · rfl
  · exact (lapBit_zero 32).symm
  · rfl
  · exact (lapBit_zero 32).symm
  · rfl

theorem Inv.post (h : e.Inv) (hpost : e.post ev = some e') :
    e'.Inv ∧ e'.taken = e.taken ∧ ∃ c, e'.posted = e.posted ++ [ev.withCycle c] := by
  rw [EventRing.post] at hpost
  split at hpost
  · rename_i hspace
    obtain rfl := Option.some.inj hpost
    have hlength : (e.posted ++ [ev.withCycle e.producerCycle]).length = e.posted.length + 1 := by
      rw [List.length_append, List.length_singleton]
    refine ⟨?_, rfl, _, rfl⟩
    constructor
    · have hpush := h.holds.push
        ((Trb.withCycle_cycle ev e.producerCycle).trans h.producerCycle)
      rw [← h.enqueue] at hpush
      exact hpush
    · exact h.taken.trans (List.prefix_append _ _)
    · exact h.acked_le
    · rw [hlength]
      exact hspace
    · exact h.dequeue
    · exact h.cycle
    · rw [hlength]
      dsimp only
      rw [h.enqueue, xhciEventRingSize, Nat.mod_add_mod]
    · rw [hlength, lapBit_succ (by norm_num)]
      dsimp only
      rw [h.producerCycle, h.enqueue, xhciEventRingSize]
    · exact h.erdp
  · cases hpost

theorem prefix_snoc {taken posted : List Trb} (h : taken <+: posted)
    (hget : posted[taken.length]? = some ev) : taken ++ [ev] <+: posted := by
  obtain ⟨rest, rfl⟩ := h
  rw [List.getElem?_append_right le_rfl, Nat.sub_self] at hget
  cases rest with
  | nil => cases hget
  | cons x rest =>
    obtain rfl := Option.some.inj hget
    exact ⟨rest, List.append_cons _ _ _ |>.symm⟩

/-- The driver sees an event exactly when one was posted that has not been taken, and then it is
the next. -/
theorem Inv.take (h : e.Inv) :
    (e.taken = e.posted ∧ e.take = none) ∨
      ∃ ev e', e.take = some (ev, e') ∧ e'.Inv ∧ e'.taken = e.taken ++ [ev] ∧
        e'.posted = e.posted := by
  have hle := h.taken.length_le
  have hspace := h.space
  have hacked := h.acked_le
  have hsees := h.holds.cycle_iff (by norm_num) hle (by omega)
  rw [← h.dequeue, ← h.cycle] at hsees
  rw [EventRing.take]
  dsimp only
  by_cases hlt : e.taken.length < e.posted.length
  · right
    rw [if_pos (hsees.mpr hlt)]
    refine ⟨_, _, rfl, ?_, rfl, rfl⟩
    have hget := h.holds.get hlt (by omega)
    rw [← h.dequeue] at hget
    have hlength : (e.taken ++ [e.ring e.dequeue]).length = e.taken.length + 1 := by
      rw [List.length_append, List.length_singleton]
    constructor
    · exact h.holds
    · exact prefix_snoc h.taken hget
    · rw [hlength]
      exact hacked.trans (Nat.le_succ _)
    · exact hspace
    · rw [hlength]
      dsimp only
      rw [h.dequeue, xhciEventRingSize, Nat.mod_add_mod]
    · rw [hlength, lapBit_succ (by norm_num)]
      dsimp only
      rw [h.cycle, h.dequeue, xhciEventRingSize]
    · exact h.enqueue
    · exact h.producerCycle
    · exact h.erdp
  · left
    refine ⟨h.taken.eq_of_length (by omega), if_neg fun hc => hlt (hsees.mp hc)⟩

theorem Inv.writeErdp (h : e.Inv) : e.writeErdp.Inv := by
  have hle := h.taken.length_le
  have hspace := h.space
  have hacked := h.acked_le
  constructor
  · exact h.holds
  · exact h.taken
  · exact le_rfl
  · exact hspace.trans (Nat.add_le_add_right hacked 32)
  · exact h.dequeue
  · exact h.cycle
  · exact h.enqueue
  · exact h.producerCycle
  · exact h.dequeue

/-- The events that no loop has taken. -/
def unprocessed (e : EventRing) : List Trb := e.posted.drop e.taken.length

@[simp] theorem writeErdp_posted (e : EventRing) : e.writeErdp.posted = e.posted := rfl

@[simp] theorem writeErdp_taken (e : EventRing) : e.writeErdp.taken = e.taken := rfl

@[simp] theorem writeErdp_unprocessed (e : EventRing) :
    e.writeErdp.unprocessed = e.unprocessed := rfl

theorem Inv.unprocessed_take (h : e'.Inv) (htaken : e'.taken = e.taken ++ [ev])
    (hposted : e'.posted = e.posted) : e.unprocessed = ev :: e'.unprocessed := by
  obtain ⟨rest, hrest⟩ := h.taken
  have hafter : e'.unprocessed = rest := by
    rw [unprocessed, ← hrest, List.drop_left]
  rw [hafter, unprocessed, ← hposted, ← hrest, htaken, List.append_assoc, List.drop_left]
  rfl

theorem Inv.unprocessed_post (h : e.Inv) (htaken : e'.taken = e.taken)
    (hposted : e'.posted = e.posted ++ [ev]) : e'.unprocessed = e.unprocessed ++ [ev] := by
  rw [unprocessed, unprocessed, htaken, hposted, List.drop_append_of_le_length h.taken.length_le]

end EventRing

/-! ## The driver and the controller -/

/-- The loops that take events. -/
inductive Loop
  | sendCommand
  | flush
  | getDeviceDescriptor
  | poll
  deriving DecidableEq, Repr

/-- Between two calls, or before a round of a loop. -/
inductive Pc
  | idle
  /-- `trb` is the address of the TRB that was enqueued. -/
  | sendCommand (trb : UInt64) (timeout : ℕ)
  | flush (left : ℕ)
  | getDeviceDescriptor (slotId : UInt32) (timeout got : ℕ)
  | poll (left : ℕ)
  deriving DecidableEq, Repr

/-- Where the rings are. -/
structure Memory where
  cmdRing : UInt64
  kbd : KbdBuffers

structure System where
  pc : Pc
  cmd : CmdRing
  kbd : Ep1
  events : EventRing
  /-- The commands that the controller has not completed, by the addresses of their TRBs. -/
  pending : List UInt64
  /-- The EP1 transfers that the controller has not completed, by slot. -/
  outstanding : List UInt32
  /-- All EP1 transfers that were queued, by slot. -/
  queued : List UInt32
  consumed : List (Loop × Trb)
  /-- The completion events with which `xhci_send_command` returned, each with the address of the
  TRB of that call. -/
  returned : List (UInt64 × Trb)
  /-- The events for which `usb_kbd_process_report` was called. -/
  reports : List Trb

namespace System

/-- After `xhci_init` has set the controller up. -/
def start (m : Memory) : System where
  pc := .idle
  cmd := xhciInitCmdRing m.cmdRing
  kbd := ⟨fun _ => Trb.zero, 0, true, false, 0⟩
  events := EventRing.start
  pending := []
  outstanding := []
  queued := []
  consumed := []
  returned := []
  reports := []

/-! ### The controller -/

/-- A transfer event of endpoint 3, the EP1 of the driver. -/
def isEp1 (slot : UInt32) (ev : Trb) : Bool :=
  ev.type = trbTypeTransferEvent ∧ ev.slotId = slot ∧ ev.endpointId = 3

def isCompletion (ev : Trb) : Bool := ev.type = trbTypeCommandCompletionEvent

def post (s : System) (ev : Trb) : Option System :=
  (s.events.post ev).map fun events =>
    { s with
      events := events
      pending := if isCompletion ev then s.pending.erase ev.parameter else s.pending
      outstanding := if isEp1 ev.slotId ev then s.outstanding.erase ev.slotId else s.outstanding }

/-! ### The driver -/

def takeEvent (s : System) (loop : Loop) : Option (Trb × System) :=
  s.events.take.map fun x =>
    (x.1, { s with events := x.2, consumed := s.consumed ++ [(loop, x.1)] })

def writeErdp (s : System) : System := { s with events := s.events.writeErdp }

/-- `xhci_queue_kbd_transfer`. -/
def queueKbdTransfer (m : Memory) (s : System) : System :=
  if s.kbd.Ready then
    { s with
      kbd := xhciQueueKbdTransfer m.kbd s.kbd
      outstanding := s.outstanding ++ [s.kbd.slot]
      queued := s.queued ++ [s.kbd.slot] }
  else s

/-- `xhci_send_command` up to its loop. -/
def sendCommand (m : Memory) (s : System) (command : Command) : System :=
  match xhciEnqueueCommand s.cmd command.trb with
  | none => s
  | some cmd =>
    let trb := m.cmdRing + 16 * UInt64.ofNat s.cmd.enqueue
    { s with pc := .sendCommand trb 2000000, cmd := cmd, pending := s.pending ++ [trb] }

def sendCommandRound (s : System) (trb : UInt64) : (timeout : ℕ) → System
  | 0 => { s with pc := .idle }
  | timeout + 1 =>
    match s.takeEvent .sendCommand with
    | none => { s with pc := .sendCommand trb timeout }
    | some (ev, t) =>
      let t := t.writeErdp
      if isCompletion ev then { t with pc := .idle, returned := t.returned ++ [(trb, ev)] }
      else { t with pc := .sendCommand trb timeout }

/-- The flush of `xhci_init`; ERDP is written once, at its end. -/
def flushRound (s : System) : (left : ℕ) → System
  | 0 => { s.writeErdp with pc := .idle }
  | left + 1 =>
    match s.takeEvent .flush with
    | none => { s.writeErdp with pc := .idle }
    | some (_, t) => { t with pc := .flush left }

def getDeviceDescriptorRound (s : System) (slotId : UInt32) (got : ℕ) : (timeout : ℕ) → System
  | 0 => { s with pc := .idle }
  | timeout + 1 =>
    if got < 2 then
      match s.takeEvent .getDeviceDescriptor with
      | none => { s with pc := .getDeviceDescriptor slotId timeout got }
      | some (ev, t) =>
        let got := if ev.type = trbTypeTransferEvent ∧ ev.slotId = slotId then got + 1 else got
        { t.writeErdp with pc := .getDeviceDescriptor slotId timeout got }
    else { s with pc := .idle }

def pollRound (m : Memory) (s : System) : (left : ℕ) → System
  | 0 => { s with pc := .idle }
  | left + 1 =>
    match s.takeEvent .poll with
    | none => { s with pc := .idle }
    | some (ev, t) =>
      let t := { t.writeErdp with pc := .poll left }
      if ev.type = trbTypeTransferEvent ∧ ev.slotId = t.kbd.slot then
        let t := if ev.completionCode = 1 then { t with reports := t.reports ++ [ev] } else t
        t.queueKbdTransfer m
      else t

/-- The next round of the loop. -/
def round (m : Memory) (s : System) : Option System :=
  match s.pc with
  | .idle => none
  | .sendCommand trb timeout => some (s.sendCommandRound trb timeout)
  | .flush left => some (s.flushRound left)
  | .getDeviceDescriptor slotId timeout got => some (s.getDeviceDescriptorRound slotId got timeout)
  | .poll left => some (s.pollRound m left)

/-- The calls, and the parts of longer ones between two calls of the loops. -/
inductive Call
  | sendCommand (command : Command)
  | flush
  | getDeviceDescriptor (slotId : UInt32)
  | poll
  /-- `xhci_address_device` after its command. -/
  | addressed (slotId : UInt32)
  /-- `xhci_configure_kbd_endpoint` before its command. -/
  | resetEp1
  /-- `xhci_configure_kbd_endpoint` after its command. -/
  | configured
  deriving DecidableEq, Repr

def call (m : Memory) (s : System) : Call → System
  | .sendCommand command => s.sendCommand m command
  | .flush => { s with pc := .flush 32 }
  | .getDeviceDescriptor slotId => { s with pc := .getDeviceDescriptor slotId 2000000 0 }
  | .poll => if s.kbd.configured then { s with pc := .poll 8 } else s
  | .addressed slotId => { s with kbd := { s.kbd with slot := slotId } }
  -- the TRBs that the controller has not completed are erased
  | .resetEp1 => { s with kbd := Xhci.resetEp1 s.kbd, outstanding := [] }
  | .configured => queueKbdTransfer m { s with kbd := { s.kbd with configured := true } }

inductive Action
  | call (c : Call)
  | round
  | post (ev : Trb)
  deriving DecidableEq, Repr

def step (m : Memory) (s : System) : Action → Option System
  | .call c => if s.pc = .idle then some (s.call m c) else none
  | .round => s.round m
  | .post ev => s.post ev

def Step (m : Memory) (s : System) (a : Action) (t : System) : Prop := s.step m a = some t

/-- The loops have taken the events in the order in which they were posted, each once, and each
loop would take the next one that was posted, if there is one. -/
structure ExactlyOnce (s : System) : Prop where
  inOrder : s.consumed.map Prod.snd <+: s.events.posted
  next : ∀ loop, (s.takeEvent loop).map Prod.fst = s.events.posted[s.consumed.length]?

/-! ## Events are taken once -/

/-- The invariant of the event ring, and the events that the loops took. -/
structure Sound (s : System) : Prop where
  events : s.events.Inv
  consumed : s.consumed.map Prod.snd = s.events.taken

variable {m : Memory} {s t : System} {loop : Loop} {ev : Trb}

theorem Sound.start (m : Memory) : (start m).Sound := ⟨EventRing.Inv.start, rfl⟩

/-- The state after an event was taken. -/
def afterTake (s : System) (loop : Loop) (ev : Trb) (e : EventRing) : System :=
  { s with events := e, consumed := s.consumed ++ [(loop, ev)] }

theorem Sound.takeEvent (h : s.Sound) (loop : Loop) :
    (s.events.unprocessed = [] ∧ s.takeEvent loop = none) ∨
      ∃ ev e, s.takeEvent loop = some (ev, s.afterTake loop ev e) ∧
        (s.afterTake loop ev e).Sound ∧ s.events.unprocessed = ev :: e.unprocessed := by
  unfold System.takeEvent
  rcases h.events.take with ⟨hall, hnone⟩ | ⟨ev, e, htake, he, htaken, hposted⟩
  · left
    rw [hnone, EventRing.unprocessed, hall, List.drop_length]
    exact ⟨rfl, rfl⟩
  · right
    refine ⟨ev, e, ?_, ⟨he, ?_⟩, he.unprocessed_take htaken hposted⟩
    · rw [htake]
      rfl
    · change (s.consumed ++ [(loop, ev)]).map Prod.snd = e.taken
      rw [List.map_append, h.consumed, htaken]
      rfl

theorem Sound.writeErdp (h : s.Sound) : s.writeErdp.Sound := ⟨h.events.writeErdp, h.consumed⟩

theorem Sound.post (h : s.Sound) (hpost : s.post ev = some t) : t.Sound := by
  obtain ⟨e, he, rfl⟩ := Option.map_eq_some_iff.mp hpost
  obtain ⟨hinv, htaken, -⟩ := h.events.post he
  exact ⟨hinv, h.consumed.trans htaken.symm⟩

theorem Sound.queueKbdTransfer (h : s.Sound) (m : Memory) : (s.queueKbdTransfer m).Sound := by
  unfold System.queueKbdTransfer
  split
  · exact ⟨h.events, h.consumed⟩
  · exact h

theorem Sound.call (h : s.Sound) (m : Memory) (c : Call) : (s.call m c).Sound := by
  cases c with
  | sendCommand command =>
    simp only [System.call, System.sendCommand]
    split
    · exact h
    · exact ⟨h.events, h.consumed⟩
  | flush => exact ⟨h.events, h.consumed⟩
  | getDeviceDescriptor slotId => exact ⟨h.events, h.consumed⟩
  | poll =>
    simp only [System.call]
    split
    · exact ⟨h.events, h.consumed⟩
    · exact h
  | addressed slotId => exact ⟨h.events, h.consumed⟩
  | resetEp1 => exact ⟨h.events, h.consumed⟩
  | configured =>
    apply Sound.queueKbdTransfer
    exact ⟨h.events, h.consumed⟩

/-! ### Rounds -/

theorem Sound.sendCommandRound (h : s.Sound) (trb : UInt64) (timeout : ℕ) :
    (s.sendCommandRound trb timeout).Sound := by
  cases timeout with
  | zero => exact ⟨h.events, h.consumed⟩
  | succ timeout =>
    rcases h.takeEvent .sendCommand with ⟨-, hnone⟩ | ⟨ev, e, htake, ht, -⟩
    · rw [System.sendCommandRound, hnone]
      exact ⟨h.events, h.consumed⟩
    · rw [System.sendCommandRound, htake]
      dsimp only
      split
      · exact ⟨ht.writeErdp.events, ht.consumed⟩
      · exact ⟨ht.writeErdp.events, ht.consumed⟩

theorem Sound.flushRound (h : s.Sound) (left : ℕ) : (s.flushRound left).Sound := by
  cases left with
  | zero => exact ⟨h.writeErdp.events, h.consumed⟩
  | succ left =>
    rcases h.takeEvent .flush with ⟨-, hnone⟩ | ⟨ev, e, htake, ht, -⟩
    · rw [System.flushRound, hnone]
      exact ⟨h.writeErdp.events, h.consumed⟩
    · rw [System.flushRound, htake]
      exact ⟨ht.events, ht.consumed⟩

theorem Sound.getDeviceDescriptorRound (h : s.Sound) (slotId : UInt32) (got timeout : ℕ) :
    (s.getDeviceDescriptorRound slotId got timeout).Sound := by
  cases timeout with
  | zero => exact ⟨h.events, h.consumed⟩
  | succ timeout =>
    rw [System.getDeviceDescriptorRound]
    split
    · rcases h.takeEvent .getDeviceDescriptor with ⟨-, hnone⟩ | ⟨ev, e, htake, ht, -⟩
      · rw [hnone]
        exact ⟨h.events, h.consumed⟩
      · rw [htake]
        exact ⟨ht.writeErdp.events, ht.consumed⟩
    · exact ⟨h.events, h.consumed⟩

theorem Sound.pollRound (h : s.Sound) (m : Memory) (left : ℕ) : (s.pollRound m left).Sound := by
  cases left with
  | zero => exact ⟨h.events, h.consumed⟩
  | succ left =>
    rcases h.takeEvent .poll with ⟨-, hnone⟩ | ⟨ev, e, htake, ht, -⟩
    · rw [System.pollRound, hnone]
      exact ⟨h.events, h.consumed⟩
    · rw [System.pollRound, htake]
      dsimp only
      split
      · apply Sound.queueKbdTransfer
        split
        · exact ⟨ht.writeErdp.events, ht.consumed⟩
        · exact ⟨ht.writeErdp.events, ht.consumed⟩
      · exact ⟨ht.writeErdp.events, ht.consumed⟩

theorem Sound.round (h : s.Sound) (hround : s.round m = some t) : t.Sound := by
  unfold System.round at hround
  split at hround
  · cases hround
  · obtain rfl := Option.some.inj hround
    exact h.sendCommandRound _ _
  · obtain rfl := Option.some.inj hround
    exact h.flushRound _
  · obtain rfl := Option.some.inj hround
    exact h.getDeviceDescriptorRound _ _ _
  · obtain rfl := Option.some.inj hround
    exact h.pollRound m _

theorem Sound.step {a : Action} (h : s.Sound) (hstep : Step m s a t) : t.Sound := by
  cases a with
  | call c =>
    obtain ⟨-, hcall⟩ := Option.ite_none_right_eq_some.mp hstep
    obtain rfl := Option.some.inj hcall
    exact h.call m c
  | round => exact h.round hstep
  | post ev => exact h.post hstep

theorem Sound.run {actions : List Action} (h : s.Sound) (hrun : Run (Step m) s actions t) :
    t.Sound := hrun.invariant (P := Sound) (fun _ _ _ hs hstep => hs.step hstep) h

theorem Sound.exactlyOnce (h : s.Sound) : s.ExactlyOnce := by
  have hlength : s.consumed.length = s.events.taken.length := by
    rw [← h.consumed, List.length_map]
  constructor
  · rw [h.consumed]
    exact h.events.taken
  · intro loop
    have hnext : s.events.posted[s.consumed.length]? = s.events.unprocessed.head? := by
      rw [EventRing.unprocessed, List.head?_drop, hlength]
    rw [hnext]
    rcases h.takeEvent loop with ⟨hall, hnone⟩ | ⟨ev, e, htake, -, hcons⟩
    · rw [hnone, hall]
      rfl
    · rw [htake, hcons]
      rfl

/-- Whatever the controller posts and whichever loops take it. -/
theorem events_exactlyOnce {actions : List Action} (hrun : Run (Step m) (start m) actions s) :
    s.ExactlyOnce := ((Sound.start m).run hrun).exactlyOnce

/-- A port status change that the flush takes. -/
theorem events_exactlyOnce_flush :
    ∃ s : System, s.consumed = [(.flush, ⟨0x1000000, 0x1000000, 0x8801⟩)] ∧ s.ExactlyOnce := by
  let ev : Trb := ⟨0x1000000, 0x1000000, 0x8800⟩
  let m : Memory := ⟨0x1000, ⟨0x2000, 0x3000⟩⟩
  have hrun : ∃ s, Run (Step m) (start m) [.post ev, .call .flush, .round] s ∧
      s.consumed = [(.flush, ⟨0x1000000, 0x1000000, 0x8801⟩)] :=
    ⟨_, .cons rfl (.cons rfl (.cons rfl (.nil _))), by decide⟩
  obtain ⟨s, hrun, hconsumed⟩ := hrun
  exact ⟨s, hconsumed, events_exactlyOnce hrun⟩

end System

end Rhoudveine.Xhci
