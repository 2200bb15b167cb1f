import Rhoudveine.Drivers.Xhci
import Rhoudveine.Lib.CycleRing
import Rhoudveine.Lib.Run

/-!
# The transfer ring of the keyboard

`xhci_queue_kbd_transfer` and the controller on the ring of EP1.
-/

namespace Rhoudveine.Xhci
open CycleRing

def epRingSize : ℕ := 32

/-! ## The driver -/

/-- The variables of the keyboard endpoint. -/
structure Ep1 where
  ring : ℕ → Trb
  enqueue : ℕ
  cycle : Bool
  configured : Bool
  /-- `usb_kbd_slot`. -/
  slot : UInt32

/-- Where the controller finds the ring and the report buffer. -/
structure KbdBuffers where
  ring : UInt64
  report : UInt64

/-- The part of `xhci_configure_kbd_endpoint` that resets the ring. -/
def resetEp1 (k : Ep1) : Ep1 := { k with ring := fun _ => Trb.zero, enqueue := 0, cycle := true }

/-- The TRB for one report. -/
def reportTrb (bufs : KbdBuffers) (cycle : Bool) : Trb :=
  let control := (trbTypeNormal <<< 10) ||| ((1 : UInt32) <<< 5)
  ⟨bufs.report, 8, if cycle then control ||| 1 else control⟩

def linkTrb (bufs : KbdBuffers) (cycle : Bool) : Trb :=
  let control := (trbTypeLink <<< 10) ||| ((1 : UInt32) <<< 1)
  ⟨bufs.ring, 0, if cycle then control ||| 1 else control⟩

/-- The call does nothing until EP1 is configured. -/
def Ep1.Ready (k : Ep1) : Prop := k.configured = true ∧ k.slot ≠ 0

instance (k : Ep1) : Decidable k.Ready := inferInstanceAs (Decidable (_ ∧ _))

/-- The ring after the call, without the doorbell. -/
def xhciQueueKbdTransfer (bufs : KbdBuffers) (k : Ep1) : Ep1 :=
  if ¬ k.Ready then k
  else
    let usable := epRingSize - 1
    let ring := Function.update k.ring k.enqueue (reportTrb bufs k.cycle)
    let enqueue := k.enqueue + 1
    if usable ≤ enqueue then
      { k with
        ring := Function.update ring usable (linkTrb bufs k.cycle)
        enqueue := 0
        cycle := !k.cycle }
    else { k with ring := ring, enqueue := enqueue }

/-! ## The driver and the controller -/

/-- The ring between the driver and the controller.  Each slot is tagged with the number of the
call that wrote it last. -/
structure Reports where
  kbd : Ep1
  tags : ℕ → ℕ
  controller : Consumer
  /-- The Normal TRBs that were queued, with their tags. -/
  queued : List (ℕ × Trb)
  /-- Those that the controller took. -/
  taken : List (ℕ × Trb)

def Reports.start (k : Ep1) : Reports :=
  { kbd := resetEp1 k
    tags := fun _ => 0
    controller := Consumer.start
    queued := []
    taken := [] }

inductive Reports.Action
  /-- A call of `xhci_queue_kbd_transfer`. -/
  | queue
  /-- The controller takes a TRB. -/
  | take
  /-- The controller follows the Link TRB. -/
  | follow

inductive Reports.Step (bufs : KbdBuffers) : Reports → Reports.Action → Reports → Prop
  | idle {r : Reports} : ¬ r.kbd.Ready → Step bufs r .queue r
  | queue {r : Reports} : r.kbd.Ready → r.queued.length < r.taken.length + 30 →
      Step bufs r .queue
        { r with
          kbd := xhciQueueKbdTransfer bufs r.kbd
          tags := Function.update r.tags r.kbd.enqueue r.queued.length
          queued := r.queued ++ [(r.queued.length, reportTrb bufs r.kbd.cycle)] }
  | take {r : Reports} : r.controller.Sees r.kbd.ring →
      (r.kbd.ring r.controller.index).type ≠ trbTypeLink →
      Step bufs r .take
        { r with
          controller := r.controller.next bufs.ring r.kbd.ring
          taken := r.taken ++ [(r.tags r.controller.index, r.kbd.ring r.controller.index)] }
  | follow {r : Reports} : r.controller.Sees r.kbd.ring →
      (r.kbd.ring r.controller.index).type = trbTypeLink →
      Step bufs r .follow { r with controller := r.controller.next bufs.ring r.kbd.ring }

/-- What the controller took is the beginning of what was queued, and no two TRBs that were queued
have the same tag. -/
structure Reports.InOrder (r : Reports) : Prop where
  taken : r.taken <+: r.queued
  tags : r.queued.map Prod.fst = List.range r.queued.length

/-! ## The two kinds of TRB -/

theorem reportTrb_cycle (bufs : KbdBuffers) (c : Bool) : (reportTrb bufs c).cycle = c := by
  cases c <;> simp [reportTrb, Trb.cycle, trbTypeNormal] <;> decide

theorem reportTrb_type (bufs : KbdBuffers) (c : Bool) :
    (reportTrb bufs c).type = trbTypeNormal := by
  cases c <;> simp [reportTrb, Trb.type, trbTypeNormal] <;> decide

theorem linkTrb_cycle (bufs : KbdBuffers) (c : Bool) : (linkTrb bufs c).cycle = c := by
  cases c <;> simp [linkTrb, Trb.cycle, trbTypeLink] <;> decide

theorem linkTrb_type (bufs : KbdBuffers) (c : Bool) : (linkTrb bufs c).type = trbTypeLink := by
  cases c <;> simp [linkTrb, Trb.type, trbTypeLink] <;> decide

theorem linkTrb_toggles (bufs : KbdBuffers) (c : Bool) : (linkTrb bufs c).toggles = true := by
  cases c <;> simp [linkTrb, Trb.toggles, trbTypeLink] <;> decide

/-! ## The invariant -/

/-- A slot with its tag. -/
def Reports.cells (r : Reports) (i : ℕ) : ℕ × Trb := (r.tags i, r.kbd.ring i)

/-- The items of the ring: the Normal TRBs with the Link TRBs between the laps. -/
def isNormal (x : ℕ × Trb) : Bool := x.2.type ≠ trbTypeLink

/-- Item `n` is a Link TRB in the last slot and a Normal TRB elsewhere. -/
def Shaped (bufs : KbdBuffers) (items : List (ℕ × Trb)) : Prop :=
  ∀ n x, items[n]? = some x →
    x.2 = if n % 32 = 31 then linkTrb bufs (lapBit 32 n) else reportTrb bufs (lapBit 32 n)

/-- The driver has written `items`, the controller has gone past `done` of them. -/
structure Reports.Inv (bufs : KbdBuffers) (r : Reports) (items : List (ℕ × Trb)) (done : ℕ) :
    Prop where
  holds : Holds 32 (fun x => x.2.cycle) r.cells items
  shaped : Shaped bufs items
  done_le : done ≤ items.length
  queued : items.filter isNormal = r.queued
  taken : (items.take done).filter isNormal = r.taken
  enqueue : r.kbd.enqueue = items.length % 32
  enqueue_lt : items.length % 32 < 31
  cycle : r.kbd.cycle = lapBit 32 items.length
  controller : r.controller = ⟨done % 32, lapBit 32 done⟩
  space : r.queued.length ≤ r.taken.length + 30
  tags : r.queued.map Prod.fst = List.range r.queued.length

variable {bufs : KbdBuffers} {r r' : Reports} {items : List (ℕ × Trb)} {done : ℕ}

theorem Shaped.isNormal_iff (h : Shaped bufs items) {n : ℕ} {x : ℕ × Trb}
    (hx : items[n]? = some x) : isNormal x = true ↔ n % 32 ≠ 31 := by
  rw [isNormal, decide_eq_true_iff, h n x hx]
  split
  · rw [linkTrb_type]
    exact iff_of_false (not_not_intro rfl) (not_not_intro (by assumption))
  · rw [reportTrb_type]
    exact iff_of_true (by decide) (by assumption)

/-- One item in 32 is a Link TRB. -/
theorem Shaped.length_filter (h : Shaped bufs items) {n : ℕ} (hn : n ≤ items.length) :
    ((items.take n).filter isNormal).length = n - n / 32 := by
  induction n with
  | zero => simp
  | succ n ih =>
    have hx : items[n]? = some items[n] := List.getElem?_eq_getElem (by omega)
    rw [List.take_add_one, hx, List.filter_append, List.length_append, ih (by omega)]
    have hnormal := h.isNormal_iff hx
    by_cases hlast : n % 32 = 31
    · have hlink : isNormal items[n] = false := by
        rw [← Bool.not_eq_true, hnormal]
        exact not_not_intro hlast
      simp only [Option.toList_some, List.filter_cons, hlink, Bool.false_eq_true, if_false,
        List.filter_nil, List.length_nil]
      omega
    · have hreport : isNormal items[n] = true := hnormal.mpr hlast
      simp only [Option.toList_some, List.filter_cons, hreport, if_true, List.filter_nil,
        List.length_singleton]
      omega

/-- The driver is less than a lap ahead of the controller. -/
theorem Reports.Inv.lap (h : r.Inv bufs items done) : items.length ≤ done + 32 := by
  have hqueued := h.shaped.length_filter le_rfl
  rw [List.take_length, h.queued] at hqueued
  have htaken := h.shaped.length_filter h.done_le
  rw [h.taken] at htaken
  have hspace := h.space
  omega

theorem Shaped.snoc (h : Shaped bufs items) {x : ℕ × Trb}
    (hx : x.2 = if items.length % 32 = 31 then linkTrb bufs (lapBit 32 items.length)
      else reportTrb bufs (lapBit 32 items.length)) : Shaped bufs (items ++ [x]) := by
  intro n y hy
  rcases getElem?_snoc hy with ⟨-, hold⟩ | ⟨rfl, rfl⟩
  · exact h n y hold
  · exact hx

/-! ## Calls of the driver -/

theorem cells_update (r : Reports) (i q : ℕ) (trb : Trb) :
    (fun j => (Function.update r.tags i q j, Function.update r.kbd.ring i trb j)) =
      Function.update r.cells i (q, trb) := by
  funext j
  rw [Function.update_apply, Function.update_apply, Function.update_apply]
  split
  · rfl
  · rfl

theorem cells_update_ring (tags : ℕ → ℕ) (ring : ℕ → Trb) (i : ℕ) (trb : Trb) :
    (fun j => (tags j, Function.update ring i trb j)) =
      Function.update (fun j => (tags j, ring j)) i (tags i, trb) := by
  funext j
  rw [Function.update_apply, Function.update_apply]
  split
  · rename_i hj
    rw [hj]
  · rfl

/-- The tag of the next Normal TRB. -/
theorem tags_snoc {queued : List (ℕ × Trb)} (h : queued.map Prod.fst = List.range queued.length)
    (trb : Trb) : (queued ++ [(queued.length, trb)]).map Prod.fst =
      List.range (queued ++ [(queued.length, trb)]).length := by
  rw [List.map_append, h, List.length_append, List.length_singleton, List.range_succ]
  rfl

theorem Reports.Inv.queue (h : r.Inv bufs items done) (hready : r.kbd.Ready)
    (hspace : r.queued.length < r.taken.length + 30) :
    ∃ items', Reports.Inv bufs
      { r with
        kbd := xhciQueueKbdTransfer bufs r.kbd
        tags := Function.update r.tags r.kbd.enqueue r.queued.length
        queued := r.queued ++ [(r.queued.length, reportTrb bufs r.kbd.cycle)] } items' done := by
  have hlt := h.enqueue_lt
  have hsame : lapBit 32 (items.length + 1) = lapBit 32 items.length := by
    rw [lapBit_succ (by norm_num), if_neg (by omega)]
  -- the Normal TRB is written in both cases
  have hreport : (reportTrb bufs r.kbd.cycle).cycle = lapBit 32 items.length := by
    rw [reportTrb_cycle, h.cycle]
  have hnormal : isNormal (r.queued.length, reportTrb bufs r.kbd.cycle) = true := by
    rw [isNormal, reportTrb_type]
    rfl
  let item : ℕ × Trb := (r.queued.length, reportTrb bufs r.kbd.cycle)
  have hholds : Holds 32 (fun x => x.2.cycle)
      (Function.update r.cells r.kbd.enqueue item) (items ++ [item]) := by
    rw [h.enqueue]
    exact h.holds.push hreport
  have hshaped : Shaped bufs (items ++ [item]) := by
    apply h.shaped.snoc
    rw [if_neg (by omega), ← h.cycle]
  have hqueued : (items ++ [item]).filter isNormal = r.queued ++ [item] := by
    rw [List.filter_append, h.queued, List.filter_singleton, hnormal]
    rfl
  have htaken (more : List (ℕ × Trb)) :
      ((items ++ more).take done).filter isNormal = r.taken := by
    rw [List.take_append_of_le_length h.done_le, h.taken]
  have hlength : (items ++ [item]).length = items.length + 1 := by
    rw [List.length_append, List.length_singleton]
  have hspace' : (r.queued ++ [item]).length ≤ r.taken.length + 30 := by
    rw [List.length_append, List.length_singleton]
    exact hspace
  have htags : (r.queued ++ [item]).map Prod.fst = List.range (r.queued ++ [item]).length :=
    tags_snoc h.tags _
  have hdone := h.done_le
  unfold xhciQueueKbdTransfer
  rw [if_neg (not_not_intro hready)]
  dsimp only [epRingSize]
  by_cases hwrap : 32 - 1 ≤ r.kbd.enqueue + 1
  · rw [if_pos hwrap]
    have henqueue := h.enqueue
    have hslot : (items ++ [item]).length % 32 = 31 := by
      rw [hlength]
      omega
    let tags := Function.update r.tags r.kbd.enqueue r.queued.length
    let link : ℕ × Trb := (tags 31, linkTrb bufs r.kbd.cycle)
    have hlink : link.2.cycle = lapBit 32 (items ++ [item]).length := by
      rw [hlength, hsame, ← h.cycle]
      exact linkTrb_cycle bufs r.kbd.cycle
    have hlength' : (items ++ [item] ++ [link]).length = items.length + 2 := by
      rw [List.length_append, hlength, List.length_singleton]
    refine ⟨items ++ [item] ++ [link], ?_⟩
    constructor
    · have hpush := hholds.push hlink
      rw [hslot] at hpush
      rw [← cells_update] at hpush
      have hcells := cells_update_ring tags
        (Function.update r.kbd.ring r.kbd.enqueue (reportTrb bufs r.kbd.cycle)) 31
        (linkTrb bufs r.kbd.cycle)
      rw [← hcells] at hpush
      exact hpush
    · apply hshaped.snoc
      rw [if_pos hslot, hlength, hsame, ← h.cycle]
    · rw [hlength']
      exact hdone.trans (Nat.le_add_right _ 2)
    · have hnot : isNormal link = false := by
        rw [isNormal, linkTrb_type]
        rfl
      rw [List.filter_append, hqueued, List.filter_singleton, hnot]
      exact List.append_nil _
    · rw [List.append_assoc]
      exact htaken _
    · rw [hlength']
      dsimp only
      omega
    · rw [hlength']
      omega
    · rw [hlength', lapBit_succ (by norm_num), if_pos (by omega), hsame, ← h.cycle]
    · exact h.controller
    · exact hspace'
    · exact htags
  · rw [if_neg hwrap]
    have henqueue := h.enqueue
    refine ⟨items ++ [item], ?_⟩
    constructor
    · rw [← cells_update] at hholds
      exact hholds
    · exact hshaped
    · rw [hlength]
      exact hdone.trans (Nat.le_add_right _ 1)
    · exact hqueued
    · exact htaken _
    · rw [hlength]
      dsimp only
      omega
    · rw [hlength]
      omega
    · rw [hlength, hsame]
      exact h.cycle
    · exact h.controller
    · exact hspace'
    · exact htags

/-! ## Steps of the controller -/

/-- The controller sees the next item when there is one. -/
theorem Reports.Inv.sees (h : r.Inv bufs items done) (hsees : r.controller.Sees r.kbd.ring) :
    items[done]? = some (r.cells (done % 32)) ∧ done < items.length := by
  rw [h.controller] at hsees
  have hlt := (h.holds.cycle_iff (by norm_num) h.done_le h.lap).mp hsees
  exact ⟨h.holds.get hlt h.lap, hlt⟩

theorem Reports.Inv.take_succ (h : r.Inv bufs items done)
    (hx : items[done]? = some (r.cells (done % 32))) :
    (items.take (done + 1)).filter isNormal =
      r.taken ++ [r.cells (done % 32)].filter isNormal := by
  rw [List.take_add_one, hx, List.filter_append, h.taken]
  rfl

theorem Reports.Inv.take (h : r.Inv bufs items done) (hsees : r.controller.Sees r.kbd.ring)
    (hother : (r.kbd.ring r.controller.index).type ≠ trbTypeLink) :
    Reports.Inv bufs
      { r with
        controller := r.controller.next bufs.ring r.kbd.ring
        taken := r.taken ++ [(r.tags r.controller.index, r.kbd.ring r.controller.index)] }
      items (done + 1) := by
  obtain ⟨hx, hlt⟩ := h.sees hsees
  have hindex : r.controller.index = done % 32 := congrArg Consumer.index h.controller
  have hcycle : r.controller.cycle = lapBit 32 done := congrArg Consumer.cycle h.controller
  have hnormal : isNormal (r.cells (done % 32)) = true := by
    rw [hindex] at hother
    exact decide_eq_true hother
  have hslot := (h.shaped.isNormal_iff hx).mp hnormal
  constructor
  · exact h.holds
  · exact h.shaped
  · exact hlt
  · exact h.queued
  · rw [h.take_succ hx, List.filter_singleton, hnormal, hindex]
    rfl
  · exact h.enqueue
  · exact h.enqueue_lt
  · exact h.cycle
  · dsimp only
    rw [Consumer.next, if_neg hother, hindex, hcycle, lapBit_succ (by norm_num),
      if_neg (show ¬ (done % 32 + 1) % 32 = 0 by omega)]
    congr 1
    omega
  · have hspace := h.space
    dsimp only
    rw [List.length_append, List.length_singleton]
    omega
  · exact h.tags

theorem Reports.Inv.follow (h : r.Inv bufs items done) (hsees : r.controller.Sees r.kbd.ring)
    (hlink : (r.kbd.ring r.controller.index).type = trbTypeLink) :
    Reports.Inv bufs { r with controller := r.controller.next bufs.ring r.kbd.ring } items
      (done + 1) := by
  obtain ⟨hx, hlt⟩ := h.sees hsees
  have hindex : r.controller.index = done % 32 := congrArg Consumer.index h.controller
  have hcycle : r.controller.cycle = lapBit 32 done := congrArg Consumer.cycle h.controller
  have hnot : isNormal (r.cells (done % 32)) = false := by
    rw [hindex] at hlink
    exact decide_eq_false (not_not_intro hlink)
  have hslot : done % 32 = 31 := by
    by_contra hne
    rw [(h.shaped.isNormal_iff hx).mpr hne] at hnot
    cases hnot
  have htrb : r.kbd.ring r.controller.index = linkTrb bufs (lapBit 32 done) := by
    have hshape := h.shaped done _ hx
    rw [if_pos hslot] at hshape
    rw [hindex]
    exact hshape
  constructor
  · exact h.holds
  · exact h.shaped
  · exact hlt
  · exact h.queued
  · rw [h.take_succ hx, List.filter_singleton, hnot]
    exact List.append_nil _
  · exact h.enqueue
  · exact h.enqueue_lt
  · exact h.cycle
  · have hback : ((linkTrb bufs (lapBit 32 done)).parameter - bufs.ring) / 16 = 0 := by
      change (bufs.ring - bufs.ring) / 16 = 0
      rw [sub_self]
      rfl
    dsimp only
    rw [Consumer.next, if_pos hlink, htrb, hback, linkTrb_toggles, hcycle,
      lapBit_succ (by norm_num), if_pos (show (done % 32 + 1) % 32 = 0 by omega)]
    congr 1
    rw [UInt64.toNat_zero]
    omega
  · exact h.space
  · exact h.tags

/-! ## Runs -/

theorem Reports.Inv.start (bufs : KbdBuffers) (k : Ep1) :
    (Reports.start k).Inv bufs [] 0 := by
  constructor
  · exact Holds.start fun _ _ => Trb.zero_cycle
  · intro n x hx
    cases hx
  · exact le_rfl
  · rfl
  · rfl
  · rfl
  · decide
  · exact (lapBit_zero 32).symm
  · exact congrArg (Consumer.mk 0) (lapBit_zero 32).symm
  · exact Nat.zero_le _
  · rfl

theorem Reports.Inv.step {a : Reports.Action} (h : r.Inv bufs items done)
    (hstep : Reports.Step bufs r a r') : ∃ items' done', r'.Inv bufs items' done' := by
  cases hstep with
  | idle _ => exact ⟨items, done, h⟩
  | queue hready hspace =>
    obtain ⟨items', hitems⟩ := h.queue hready hspace
    exact ⟨items', done, hitems⟩
  | take hsees hother => exact ⟨items, done + 1, h.take hsees hother⟩
  | follow hsees hlink => exact ⟨items, done + 1, h.follow hsees hlink⟩

theorem Reports.Inv.run {actions : List Reports.Action} (h : r.Inv bufs items done)
    (hrun : Run (Reports.Step bufs) r actions r') : ∃ items' done', r'.Inv bufs items' done' := by
  apply hrun.invariant (P := fun r => ∃ items done, r.Inv bufs items done)
  · rintro r₁ a r₂ ⟨items₁, done₁, h₁⟩ hstep
    exact h₁.step hstep
  · exact ⟨items, done, h⟩

theorem Reports.Inv.inOrder (h : r.Inv bufs items done) : r.InOrder := by
  constructor
  · rw [← h.taken, ← h.queued]
    exact (List.take_prefix done items).filter isNormal
  · exact h.tags

/-- However the calls and the controller are interleaved, with at most 30 TRBs between them, the
controller takes the TRBs in the order in which they were queued, each once. -/
theorem reports_inOrder {k : Ep1} {actions : List Reports.Action}
    (hrun : Run (Reports.Step bufs) (Reports.start k) actions r) : r.InOrder := by
  obtain ⟨items, done, h⟩ := (Reports.Inv.start bufs k).run hrun
  exact h.inOrder

/-- One report. -/
theorem reports_inOrder_one :
    ∃ r : Reports, r.taken = [(0, reportTrb ⟨0x1000, 0x2000⟩ true)] ∧ r.InOrder := by
  let k : Ep1 := ⟨fun _ => Trb.zero, 0, true, true, 1⟩
  have hrun : ∃ r, Run (Reports.Step ⟨0x1000, 0x2000⟩) (Reports.start k) [.queue, .take] r ∧
      r.taken = [(0, reportTrb ⟨0x1000, 0x2000⟩ true)] :=
    ⟨_, .cons (.queue (by decide) (by decide)) (.cons (.take (by decide) (by decide)) (.nil _)),
      rfl⟩
  obtain ⟨r, hrun, htaken⟩ := hrun
  exact ⟨r, htaken, reports_inOrder hrun⟩

end Rhoudveine.Xhci
