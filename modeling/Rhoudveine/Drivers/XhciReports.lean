import Rhoudveine.Drivers.XhciEvents

/-!
# Transfers of the keyboard

How many EP1 transfers of a device are with the controller or in the event ring, once the device is
the keyboard.
-/

namespace Rhoudveine.Xhci.System

/-! ## Transfers and their events -/

/-- The controller completes EP1 transfers of slot `d` that were queued, each once. -/
def Delivers (d : UInt32) (s : System) : Action → Prop
  | .post ev => isEp1 d ev = true → d ∈ s.outstanding
  | _ => True

def DeliversStep (m : Memory) (d : UInt32) (s : System) (a : Action) (t : System) : Prop :=
  Step m s a t ∧ s.Delivers d a

/-- The loop whose next round may take an event. -/
def loop (s : System) : Option Loop :=
  match s.pc with
  | .idle => none
  | .sendCommand _ timeout => if 0 < timeout then some .sendCommand else none
  | .flush left => if 0 < left then some .flush else none
  | .getDeviceDescriptor _ timeout got =>
    if 0 < timeout ∧ got < 2 then some .getDeviceDescriptor else none
  | .poll left => if 0 < left then some .poll else none

/-- `usb_kbd_poll` takes the event for a report. -/
def IsReport (s : System) (ev : Trb) : Prop :=
  ev.type = trbTypeTransferEvent ∧ ev.slotId = s.kbd.slot

instance (s : System) (ev : Trb) : Decidable (s.IsReport ev) :=
  inferInstanceAs (Decidable (_ ∧ _))

/-- EP1 events of slot `d` are only taken by `usb_kbd_poll`, and it takes no other event for a
report.  The ring of EP1 is not cleared while the controller has a TRB of `d`, and no second one
is queued. -/
def Undisturbed (d : UInt32) (s : System) : Action → Prop
  | .round => ∀ ev loop, s.events.unprocessed.head? = some ev → s.loop = some loop →
      (isEp1 d ev = true ↔ loop = .poll ∧ s.IsReport ev)
  | .call .resetEp1 => d ∉ s.outstanding
  | .call .configured => s.kbd.slot ≠ d
  | _ => True

/-- The events for which a report of slot `d` is due. -/
def isGoodEp1 (d : UInt32) (ev : Trb) : Bool := isEp1 d ev && ev.completionCode = 1

/-- One EP1 transfer of slot `d` is with the controller or waits in the event ring, and since `s₁`
there was one report for each event of a successful one. -/
structure Conserved (d : UInt32) (s₁ s : System) : Prop where
  one : s.outstanding.count d + s.events.unprocessed.countP (isEp1 d) = 1
  reports : ∃ later, s.consumed = s₁.consumed ++ later ∧
    s.reports = s₁.reports ++ (later.map Prod.snd).filter (isGoodEp1 d)

variable {m : Memory} {d : UInt32} {s s₀ s₁ t : System} {ev : Trb}

@[simp] theorem isEp1_withCycle (d : UInt32) (ev : Trb) (c : Bool) :
    isEp1 d (ev.withCycle c) = isEp1 d ev := by
  rw [isEp1, Trb.withCycle_type, Trb.withCycle_slotId, Trb.withCycle_endpointId, isEp1]

theorem isEp1_slot (h : isEp1 d ev = true) : ev.slotId = d := (decide_eq_true_iff.mp h).2.1

/-! ## What a round does -/

/-- The EP1 transfer that a call of `xhci_queue_kbd_transfer` queues. -/
def armed (s : System) : List UInt32 := if s.kbd.Ready then [s.kbd.slot] else []

/-- What the transfers depend on. -/
structure Traffic where
  configured : Bool
  outstanding : List UInt32
  queued : List UInt32
  reports : List Trb
  posted : List Trb

def traffic (s : System) : Traffic :=
  ⟨s.kbd.configured, s.outstanding, s.queued, s.reports, s.events.posted⟩

/-- After a call of `xhci_queue_kbd_transfer`. -/
def requeued (s : System) : Traffic :=
  { s.traffic with outstanding := s.outstanding ++ s.armed, queued := s.queued ++ s.armed }

theorem xhciQueueKbdTransfer_configured (bufs : KbdBuffers) (k : Ep1) :
    (xhciQueueKbdTransfer bufs k).configured = k.configured := by
  unfold xhciQueueKbdTransfer
  split
  · rfl
  · dsimp only
    split
    · rfl
    · rfl

theorem queueKbdTransfer_traffic (m : Memory) (s : System) :
    (s.queueKbdTransfer m).traffic = s.requeued := by
  unfold queueKbdTransfer requeued armed
  by_cases hready : s.kbd.Ready
  · rw [if_pos hready, if_pos hready]
    unfold traffic
    dsimp only
    rw [xhciQueueKbdTransfer_configured]
  · rw [if_neg hready, if_neg hready, List.append_nil, List.append_nil]
    rfl

theorem queueKbdTransfer_events (m : Memory) (s : System) :
    (s.queueKbdTransfer m).events = s.events ∧ (s.queueKbdTransfer m).consumed = s.consumed := by
  unfold queueKbdTransfer
  split
  · exact ⟨rfl, rfl⟩
  · exact ⟨rfl, rfl⟩

/-- A round takes no event, or one that is not for a report, or one for a report. -/
inductive Round (s t : System) : Prop
  | nothing : t.traffic = s.traffic → t.events.unprocessed = s.events.unprocessed →
      t.consumed = s.consumed → Round s t
  | other {loop : Loop} {ev : Trb} : s.loop = some loop → ¬ (loop = .poll ∧ s.IsReport ev) →
      t.traffic = s.traffic → s.events.unprocessed = ev :: t.events.unprocessed →
      t.consumed = s.consumed ++ [(loop, ev)] → Round s t
  | report {ev : Trb} : s.loop = some .poll → s.IsReport ev →
      t.traffic = { s.requeued with
        reports := if ev.completionCode = 1 then s.reports ++ [ev] else s.reports } →
      s.events.unprocessed = ev :: t.events.unprocessed →
      t.consumed = s.consumed ++ [(.poll, ev)] → Round s t

theorem take_posted {e e' : EventRing} (h : e.take = some (ev, e')) : e'.posted = e.posted := by
  unfold EventRing.take at h
  dsimp only at h
  split at h
  · obtain ⟨-, rfl⟩ := Prod.mk.inj (Option.some.inj h)
    rfl
  · cases h

theorem Sound.takeEvent_traffic (h : s.Sound) (loop : Loop) :
    s.takeEvent loop = none ∨
      ∃ ev e, s.takeEvent loop = some (ev, s.afterTake loop ev e) ∧
        (s.afterTake loop ev e).traffic = s.traffic ∧
        s.events.unprocessed = ev :: e.unprocessed := by
  rcases h.takeEvent loop with ⟨-, hnone⟩ | ⟨ev, e, htake, -, hcons⟩
  · exact Or.inl hnone
  · refine Or.inr ⟨ev, e, htake, ?_, hcons⟩
    obtain ⟨x, hx, hpair⟩ := Option.map_eq_some_iff.mp htake
    obtain ⟨rfl, hstate⟩ := Prod.mk.inj hpair
    have he : x.2 = e := congrArg System.events hstate
    have hposted : e.posted = s.events.posted := he ▸ take_posted hx
    change Traffic.mk _ _ _ _ e.posted = _
    rw [hposted]
    rfl

/-- The part of a round of `usb_kbd_poll` after the event was taken. -/
theorem Round.of_queue {u : System} (m : Memory) (hloop : s.loop = some .poll)
    (hreport : s.IsReport ev) (hkbd : u.kbd = s.kbd)
    (hu : u.traffic = { s.traffic with
      reports := if ev.completionCode = 1 then s.reports ++ [ev] else s.reports })
    (hcons : s.events.unprocessed = ev :: u.events.unprocessed)
    (hconsumed : u.consumed = s.consumed ++ [(.poll, ev)]) : s.Round (u.queueKbdTransfer m) := by
  obtain ⟨hevents, hsame⟩ := queueKbdTransfer_events m u
  apply Round.report hloop hreport
  · have hout : u.outstanding = s.outstanding := congrArg Traffic.outstanding hu
    have hqueued : u.queued = s.queued := congrArg Traffic.queued hu
    rw [queueKbdTransfer_traffic, requeued, hu, hout, hqueued, armed, hkbd]
    rfl
  · rw [hevents]
    exact hcons
  · rw [hsame]
    exact hconsumed

variable {trb : UInt64} {slotId : UInt32} {timeout got left : ℕ}

theorem Sound.sendCommandRound_cases (h : s.Sound) (hpc : s.pc = .sendCommand trb timeout) :
    s.Round (s.sendCommandRound trb timeout) := by
  cases timeout with
  | zero => exact .nothing rfl rfl rfl
  | succ timeout =>
    have hloop : s.loop = some .sendCommand := by
      rw [loop, hpc]
      exact if_pos (Nat.succ_pos timeout)
    rcases h.takeEvent_traffic .sendCommand with hnone | ⟨ev, e, htake, htraffic, hcons⟩
    · rw [System.sendCommandRound, hnone]
      exact .nothing rfl rfl rfl
    · rw [System.sendCommandRound, htake]
      have hother : ¬ (Loop.sendCommand = .poll ∧ s.IsReport ev) := fun h => Loop.noConfusion h.1
      dsimp only
      split
      · exact .other hloop hother htraffic hcons rfl
      · exact .other hloop hother htraffic hcons rfl

theorem Sound.flushRound_cases (h : s.Sound) (hpc : s.pc = .flush left) :
    s.Round (s.flushRound left) := by
  cases left with
  | zero => exact .nothing rfl rfl rfl
  | succ left =>
    have hloop : s.loop = some .flush := by
      rw [loop, hpc]
      exact if_pos (Nat.succ_pos left)
    rcases h.takeEvent_traffic .flush with hnone | ⟨ev, e, htake, htraffic, hcons⟩
    · rw [System.flushRound, hnone]
      exact .nothing rfl rfl rfl
    · rw [System.flushRound, htake]
      exact .other hloop (fun h => Loop.noConfusion h.1) htraffic hcons rfl

theorem Sound.getDeviceDescriptorRound_cases (h : s.Sound)
    (hpc : s.pc = .getDeviceDescriptor slotId timeout got) :
    s.Round (s.getDeviceDescriptorRound slotId got timeout) := by
  cases timeout with
  | zero => exact .nothing rfl rfl rfl
  | succ timeout =>
    rw [System.getDeviceDescriptorRound]
    by_cases hgot : got < 2
    · have hloop : s.loop = some .getDeviceDescriptor := by
        rw [loop, hpc]
        exact if_pos ⟨Nat.succ_pos timeout, hgot⟩
      rw [if_pos hgot]
      rcases h.takeEvent_traffic .getDeviceDescriptor with hnone | ⟨ev, e, htake, htraffic, hcons⟩
      · rw [hnone]
        exact .nothing rfl rfl rfl
      · rw [htake]
        exact .other hloop (fun h => Loop.noConfusion h.1) htraffic hcons rfl
    · rw [if_neg hgot]
      exact .nothing rfl rfl rfl

theorem Sound.pollRound_cases (h : s.Sound) (m : Memory) (hpc : s.pc = .poll left) :
    s.Round (s.pollRound m left) := by
  cases left with
  | zero => exact .nothing rfl rfl rfl
  | succ left =>
    have hloop : s.loop = some .poll := by
      rw [loop, hpc]
      exact if_pos (Nat.succ_pos left)
    rcases h.takeEvent_traffic .poll with hnone | ⟨ev, e, htake, htraffic, hcons⟩
    · rw [System.pollRound, hnone]
      exact .nothing rfl rfl rfl
    · rw [System.pollRound, htake]
      dsimp only
      split
      · rename_i hreport
        by_cases hgood : ev.completionCode = 1
        · rw [if_pos hgood]
          apply Round.of_queue m hloop hreport
          · rfl
          · rw [if_pos hgood]
            exact congrArg (fun x : Traffic => { x with reports := s.reports ++ [ev] }) htraffic
          · exact hcons
          · rfl
        · rw [if_neg hgood]
          apply Round.of_queue m hloop hreport
          · rfl
          · rw [if_neg hgood]
            exact htraffic
          · exact hcons
          · rfl
      · rename_i hreport
        exact .other hloop (fun h => hreport h.2) htraffic hcons rfl

theorem Sound.round_cases (h : s.Sound) (hround : s.round m = some t) : s.Round t := by
  unfold System.round at hround
  split at hround
  · cases hround
  · rename_i hpc
    obtain rfl := Option.some.inj hround
    exact h.sendCommandRound_cases hpc
  · rename_i hpc
    obtain rfl := Option.some.inj hround
    exact h.flushRound_cases hpc
  · rename_i hpc
    obtain rfl := Option.some.inj hround
    exact h.getDeviceDescriptorRound_cases hpc
  · rename_i hpc
    obtain rfl := Option.some.inj hround
    exact h.pollRound_cases m hpc

/-- Only two calls touch the transfers. -/
theorem call_cases (m : Memory) (s : System) (c : Call) :
    c = .resetEp1 ∨ c = .configured ∨
      ((s.call m c).traffic = s.traffic ∧ (s.call m c).events = s.events ∧
        (s.call m c).consumed = s.consumed) := by
  cases c with
  | sendCommand command =>
    right
    right
    simp only [System.call, System.sendCommand]
    split
    · exact ⟨rfl, rfl, rfl⟩
    · exact ⟨rfl, rfl, rfl⟩
  | flush => exact Or.inr (Or.inr ⟨rfl, rfl, rfl⟩)
  | getDeviceDescriptor slotId => exact Or.inr (Or.inr ⟨rfl, rfl, rfl⟩)
  | poll =>
    right
    right
    rw [System.call]
    split
    · exact ⟨rfl, rfl, rfl⟩
    · exact ⟨rfl, rfl, rfl⟩
  | addressed slotId => exact Or.inr (Or.inr ⟨rfl, rfl, rfl⟩)
  | resetEp1 => exact Or.inl rfl
  | configured => exact Or.inr (Or.inl rfl)

/-! ## Before the first transfer -/

/-- Each EP1 event of slot `d` has its own transfer. -/
structure Accounted (d : UInt32) (s : System) : Prop where
  sound : s.Sound
  le : s.outstanding.count d + s.events.posted.countP (isEp1 d) ≤ s.queued.count d

theorem Accounted.start (m : Memory) (d : UInt32) : (start m).Accounted d :=
  ⟨Sound.start m, le_rfl⟩

theorem count_erase (h : isEp1 d ev = false) (outstanding : List UInt32) :
    (if isEp1 ev.slotId ev then outstanding.erase ev.slotId else outstanding).count d =
      outstanding.count d := by
  split
  · rename_i hep1
    have hne : d ≠ ev.slotId := by
      intro hslot
      rw [hslot, hep1] at h
      cases h
    exact List.count_erase_of_ne hne
  · rfl

/-- An event of `d` and the number of its transfers with the controller. -/
theorem count_erase_self (h : isEp1 d ev = true) {outstanding : List UInt32}
    (hmem : d ∈ outstanding) :
    (if isEp1 ev.slotId ev then outstanding.erase ev.slotId else outstanding).count d + 1 =
      outstanding.count d := by
  have hslot := isEp1_slot h
  have hpos := List.count_pos_iff.mpr hmem
  rw [hslot, if_pos h, List.count_erase_self]
  omega

theorem Accounted.post (h : s.Accounted d) (hdelivers : s.Delivers d (.post ev))
    (hpost : s.post ev = some t) : t.Accounted d := by
  have hsound := h.sound.post hpost
  have hle := h.le
  obtain ⟨e, he, rfl⟩ := Option.map_eq_some_iff.mp hpost
  obtain ⟨-, -, c, hposted⟩ := h.sound.events.post he
  refine ⟨hsound, ?_⟩
  dsimp only
  rw [hposted, List.countP_append, List.countP_singleton, isEp1_withCycle]
  by_cases hev : isEp1 d ev = true
  · have hcount := count_erase_self hev (hdelivers hev)
    rw [if_pos hev]
    omega
  · have hcount := count_erase (Bool.eq_false_of_not_eq_true hev) s.outstanding
    rw [if_neg hev, hcount]
    exact hle

theorem Accounted.of_traffic (h : s.Accounted d) (ht : t.Sound) (htraffic : t.traffic = s.traffic) :
    t.Accounted d := by
  refine ⟨ht, ?_⟩
  have hle := h.le
  have houtstanding : t.outstanding = s.outstanding := congrArg Traffic.outstanding htraffic
  have hqueued : t.queued = s.queued := congrArg Traffic.queued htraffic
  have hposted : t.events.posted = s.events.posted := congrArg Traffic.posted htraffic
  rw [houtstanding, hqueued, hposted]
  exact hle

/-- A call of `xhci_queue_kbd_transfer`. -/
theorem Accounted.of_requeued {reports : List Trb} (h : s.Accounted d) (ht : t.Sound)
    (htraffic : t.traffic = { s.requeued with reports := reports }) : t.Accounted d := by
  refine ⟨ht, ?_⟩
  have hle := h.le
  have houtstanding : t.outstanding = s.outstanding ++ s.armed :=
    congrArg Traffic.outstanding htraffic
  have hqueued : t.queued = s.queued ++ s.armed := congrArg Traffic.queued htraffic
  have hposted : t.events.posted = s.events.posted := congrArg Traffic.posted htraffic
  rw [houtstanding, hqueued, hposted, List.count_append, List.count_append]
  omega

theorem Accounted.call (h : s.Accounted d) (m : Memory) (c : Call) : (s.call m c).Accounted d := by
  have hsound := h.sound.call m c
  rcases call_cases m s c with rfl | rfl | ⟨htraffic, -⟩
  · refine ⟨hsound, ?_⟩
    have hle := h.le
    change ([] : List UInt32).count d + s.events.posted.countP (isEp1 d) ≤ s.queued.count d
    rw [List.count_nil]
    omega
  · have hset : Accounted d { s with kbd := { s.kbd with configured := true } } :=
      ⟨⟨h.sound.events, h.sound.consumed⟩, h.le⟩
    exact hset.of_requeued hsound (queueKbdTransfer_traffic m _)
  · exact h.of_traffic hsound htraffic

theorem Accounted.step {a : Action} (h : s.Accounted d) (hstep : DeliversStep m d s a t) :
    t.Accounted d := by
  obtain ⟨hstep, hdelivers⟩ := hstep
  have hsound := h.sound.step hstep
  cases a with
  | call c =>
    obtain ⟨-, hcall⟩ := Option.ite_none_right_eq_some.mp hstep
    obtain rfl := Option.some.inj hcall
    exact h.call m c
  | round =>
    cases h.sound.round_cases hstep with
    | nothing htraffic _ _ => exact h.of_traffic hsound htraffic
    | other _ _ htraffic _ _ => exact h.of_traffic hsound htraffic
    | report _ _ htraffic _ _ => exact h.of_requeued hsound htraffic
  | post ev => exact h.post hdelivers hstep

/-- No transfer of `d` was queued: none is with the controller, and no event waits. -/
theorem Accounted.first (h : s.Accounted d) (hfirst : d ∉ s.queued) :
    s.outstanding.count d = 0 ∧ s.events.unprocessed.countP (isEp1 d) = 0 := by
  have hle := h.le
  rw [List.count_eq_zero_of_not_mem hfirst] at hle
  have hsub := (List.drop_sublist s.events.taken.length s.events.posted).countP_le (p := isEp1 d)
  rw [EventRing.unprocessed]
  omega

/-! ## From the first transfer on -/

/-- The invariant, since `s₁`. -/
structure Armed (d : UInt32) (s₁ s : System) : Prop where
  sound : s.Sound
  configured : s.kbd.configured = true
  conserved : Conserved d s₁ s

theorem filter_isGoodEp1 (h : isEp1 d ev = false) (later : List (Loop × Trb)) (loop : Loop) :
    ((later ++ [(loop, ev)]).map Prod.snd).filter (isGoodEp1 d) =
      (later.map Prod.snd).filter (isGoodEp1 d) := by
  have hgood : isGoodEp1 d ev = false := by
    rw [isGoodEp1, h, Bool.false_and]
  rw [List.map_append, List.filter_append, List.map_singleton, List.filter_singleton, hgood]
  exact List.append_nil _

theorem count_armed_of_ne (h : s.kbd.slot ≠ d) : s.armed.count d = 0 := by
  rw [armed]
  split
  · exact List.count_eq_zero_of_not_mem fun hmem => h (List.mem_singleton.mp hmem).symm
  · exact List.count_nil

theorem count_armed_self (hconfigured : s.kbd.configured = true) (hslot : s.kbd.slot = d)
    (hd : d ≠ 0) : s.armed.count d = 1 := by
  have hready : s.kbd.Ready := ⟨hconfigured, hslot ▸ hd⟩
  rw [armed, if_pos hready, hslot, List.count_singleton_self]

/-- What does not touch the transfers of `d` keeps the invariant. -/
theorem Armed.of_same (h : Armed d s₁ s) (ht : t.Sound)
    (hconfigured : t.kbd.configured = s.kbd.configured)
    (hcount : t.outstanding.count d = s.outstanding.count d)
    (hunprocessed : t.events.unprocessed.countP (isEp1 d) = s.events.unprocessed.countP (isEp1 d))
    (hconsumed : t.consumed = s.consumed) (hreports : t.reports = s.reports) :
    Armed d s₁ t := by
  refine ⟨ht, hconfigured.trans h.configured, ?_, ?_⟩
  · rw [hcount, hunprocessed]
    exact h.conserved.one
  · rw [hconsumed, hreports]
    exact h.conserved.reports

theorem Armed.post (h : Armed d s₁ s) (hdelivers : s.Delivers d (.post ev))
    (hpost : s.post ev = some t) : Armed d s₁ t := by
  have hsound := h.sound.post hpost
  have hone := h.conserved.one
  obtain ⟨e, he, rfl⟩ := Option.map_eq_some_iff.mp hpost
  obtain ⟨-, htaken, c, hposted⟩ := h.sound.events.post he
  have hunprocessed := h.sound.events.unprocessed_post htaken hposted
  refine ⟨hsound, h.configured, ?_, h.conserved.reports⟩
  dsimp only
  rw [hunprocessed, List.countP_append, List.countP_singleton, isEp1_withCycle]
  by_cases hev : isEp1 d ev = true
  · have hcount := count_erase_self hev (hdelivers hev)
    rw [if_pos hev]
    omega
  · have hcount := count_erase (Bool.eq_false_of_not_eq_true hev) s.outstanding
    rw [if_neg hev, hcount]
    exact hone

theorem Armed.call {c : Call} (h : Armed d s₁ s) (m : Memory)
    (hundisturbed : s.Undisturbed d (.call c)) : Armed d s₁ (s.call m c) := by
  have hsound := h.sound.call m c
  rcases call_cases m s c with rfl | rfl | ⟨htraffic, hevents, hconsumed⟩
  · have hzero : s.outstanding.count d = 0 := List.count_eq_zero_of_not_mem hundisturbed
    exact h.of_same hsound rfl hzero.symm rfl rfl rfl
  · let u : System := { s with kbd := { s.kbd with configured := true } }
    have htraffic : (s.call m .configured).traffic = u.requeued := queueKbdTransfer_traffic m u
    obtain ⟨hevents, hconsumed⟩ := queueKbdTransfer_events m u
    have hcount : (s.call m .configured).outstanding.count d = s.outstanding.count d := by
      have houtstanding : (s.call m .configured).outstanding = s.outstanding ++ u.armed :=
        congrArg Traffic.outstanding htraffic
      rw [houtstanding, List.count_append, count_armed_of_ne (s := u) hundisturbed, add_zero]
    apply h.of_same hsound
    · exact (congrArg Traffic.configured htraffic).trans h.configured.symm
    · exact hcount
    · exact congrArg (fun e => e.unprocessed.countP (isEp1 d)) hevents
    · exact hconsumed
    · exact congrArg Traffic.reports htraffic
  · apply h.of_same hsound (congrArg Traffic.configured htraffic)
    · exact congrArg (fun x => x.outstanding.count d) htraffic
    · rw [hevents]
    · exact hconsumed
    · exact congrArg Traffic.reports htraffic

theorem Armed.other {loop : Loop} (h : Armed d s₁ s) (ht : t.Sound) (hev : isEp1 d ev = false)
    (htraffic : t.traffic = s.traffic) (hcons : s.events.unprocessed = ev :: t.events.unprocessed)
    (hconsumed : t.consumed = s.consumed ++ [(loop, ev)]) : Armed d s₁ t := by
  have houtstanding : t.outstanding = s.outstanding := congrArg Traffic.outstanding htraffic
  have hreports : t.reports = s.reports := congrArg Traffic.reports htraffic
  refine ⟨ht, (congrArg Traffic.configured htraffic).trans h.configured, ?_, ?_⟩
  · have hone := h.conserved.one
    rw [hcons, List.countP_cons_of_neg (by rw [hev]; exact Bool.false_ne_true)] at hone
    rw [houtstanding]
    exact hone
  · obtain ⟨later, hlater, hold⟩ := h.conserved.reports
    refine ⟨later ++ [(loop, ev)], ?_, ?_⟩
    · rw [hconsumed, hlater, List.append_assoc]
    · rw [hreports, hold, filter_isGoodEp1 hev]

/-- The transfer whose event is taken is queued again. -/
theorem Armed.report (h : Armed d s₁ s) (ht : t.Sound) (hd : d ≠ 0) (hev : isEp1 d ev = true)
    (hreport : s.IsReport ev)
    (htraffic : t.traffic = { s.requeued with
      reports := if ev.completionCode = 1 then s.reports ++ [ev] else s.reports })
    (hcons : s.events.unprocessed = ev :: t.events.unprocessed)
    (hconsumed : t.consumed = s.consumed ++ [(.poll, ev)]) : Armed d s₁ t := by
  have houtstanding : t.outstanding = s.outstanding ++ s.armed :=
    congrArg Traffic.outstanding htraffic
  have hreports : t.reports = if ev.completionCode = 1 then s.reports ++ [ev] else s.reports :=
    congrArg Traffic.reports htraffic
  have hslot : s.kbd.slot = d := hreport.2.symm.trans (isEp1_slot hev)
  refine ⟨ht, (congrArg Traffic.configured htraffic).trans h.configured, ?_, ?_⟩
  · have hone := h.conserved.one
    rw [hcons, List.countP_cons_of_pos hev] at hone
    rw [houtstanding, List.count_append, count_armed_self h.configured hslot hd]
    omega
  · obtain ⟨later, hlater, hold⟩ := h.conserved.reports
    refine ⟨later ++ [(.poll, ev)], ?_, ?_⟩
    · rw [hconsumed, hlater, List.append_assoc]
    · rw [hreports, hold, List.map_append, List.filter_append, List.map_singleton,
        List.filter_singleton, isGoodEp1, hev, Bool.true_and]
      by_cases hgood : ev.completionCode = 1
      · rw [if_pos hgood, decide_eq_true hgood, List.append_assoc]
        rfl
      · rw [if_neg hgood, decide_eq_false hgood]
        exact (congrArg _ (List.append_nil _)).symm

theorem Armed.round (h : Armed d s₁ s) (hd : d ≠ 0) (hundisturbed : s.Undisturbed d .round)
    (hround : s.round m = some t) : Armed d s₁ t := by
  have hsound := h.sound.round hround
  cases h.sound.round_cases hround with
  | nothing htraffic hunprocessed hconsumed =>
    apply h.of_same hsound (congrArg Traffic.configured htraffic)
    · exact congrArg (fun x => x.outstanding.count d) htraffic
    · rw [hunprocessed]
    · exact hconsumed
    · exact congrArg Traffic.reports htraffic
  | @other loop ev hloop hother htraffic hcons hconsumed =>
    have hhead : s.events.unprocessed.head? = some ev := by
      rw [hcons]
      rfl
    have hiff := hundisturbed ev loop hhead hloop
    have hev : isEp1 d ev = false := by
      rw [← Bool.not_eq_true, hiff]
      exact hother
    exact h.other hsound hev htraffic hcons hconsumed
  | @report ev hloop hreport htraffic hcons hconsumed =>
    have hhead : s.events.unprocessed.head? = some ev := by
      rw [hcons]
      rfl
    have hiff := hundisturbed ev .poll hhead hloop
    have hev : isEp1 d ev = true := hiff.mpr ⟨rfl, hreport⟩
    exact h.report hsound hd hev hreport htraffic hcons hconsumed

theorem Armed.step {a : Action} (h : Armed d s₁ s) (hd : d ≠ 0) (hstep : DeliversStep m d s a t)
    (hundisturbed : s.Undisturbed d a) : Armed d s₁ t := by
  obtain ⟨hstep, hdelivers⟩ := hstep
  cases a with
  | call c =>
    obtain ⟨-, hcall⟩ := Option.ite_none_right_eq_some.mp hstep
    obtain rfl := Option.some.inj hcall
    exact h.call m hundisturbed
  | round => exact h.round hd hundisturbed hstep
  | post ev => exact h.post hdelivers hstep

/-- The first transfer of `d`. -/
theorem Accounted.configured (h : s.Accounted d) (m : Memory) (hslot : s.kbd.slot = d) (hd : d ≠ 0)
    (hfirst : d ∉ s.queued) : Armed d (s.call m .configured) (s.call m .configured) := by
  have hsound := h.sound.call m .configured
  obtain ⟨hnone, hwaits⟩ := h.first hfirst
  let u : System := { s with kbd := { s.kbd with configured := true } }
  have htraffic : (s.call m .configured).traffic = u.requeued := queueKbdTransfer_traffic m u
  have hevents : (s.call m .configured).events = s.events := (queueKbdTransfer_events m u).1
  have houtstanding : (s.call m .configured).outstanding = s.outstanding ++ u.armed :=
    congrArg Traffic.outstanding htraffic
  have harmed : u.armed.count d = 1 := count_armed_self rfl hslot hd
  refine ⟨hsound, congrArg Traffic.configured htraffic, ?_, [], ?_, ?_⟩
  · rw [houtstanding, List.count_append, harmed, hevents, hnone, hwaits]
  · exact (List.append_nil _).symm
  · exact (List.append_nil _).symm

/-! ## Runs -/

/-- Once EP1 of `d` is configured for the first time, as long as its events are left to
`usb_kbd_poll` and that takes no other event for a report. -/
theorem keyboard_conserved {before after : List Action} (hd : d ≠ 0)
    (hbefore : Run (DeliversStep m d) (start m) before s₀) (hslot : s₀.kbd.slot = d)
    (hfirst : d ∉ s₀.queued) (hconfigured : Step m s₀ (.call .configured) s₁)
    (hafter : Run (fun s a t => DeliversStep m d s a t ∧ s.Undisturbed d a) s₁ after s) :
    Conserved d s₁ s := by
  have haccounted : s₀.Accounted d := hbefore.invariant (P := Accounted d)
    (fun _ _ _ hs hstep => hs.step hstep) (Accounted.start m d)
  obtain ⟨-, hcall⟩ := Option.ite_none_right_eq_some.mp hconfigured
  obtain rfl := Option.some.inj hcall
  have harmed := hafter.invariant (P := Armed d (s₀.call m .configured))
    (fun _ _ _ hs hstep => hs.step hd hstep.1 hstep.2)
    (haccounted.configured m hslot hd hfirst)
  exact harmed.conserved

theorem not_ep1 (outstanding : List UInt32) (h : isEp1 d ev = false) :
    isEp1 d ev = true → d ∈ outstanding := by
  intro hev
  rw [h] at hev
  cases hev

def memory : Memory := ⟨0x1000, ⟨0x2000, 0x3000⟩⟩

/-- A keyboard is found, and gets slot 1. -/
def enumeration : List Action :=
  [.call (.sendCommand .enableSlot), .post ⟨0x1000, 0x1000000, 0x1008400⟩, .round,
    .call (.sendCommand (.addressDevice 0x4000 1)), .post ⟨0x1010, 0x1000000, 0x1008400⟩, .round,
    .call (.addressed 1), .call (.getDeviceDescriptor 1),
    .post ⟨0x5010, 0x1000000, 0x1018000⟩, .round, .post ⟨0x5020, 0x1000000, 0x1018000⟩, .round,
    .round, .call .resetEp1, .call (.sendCommand (.configureEndpoint 0x4000 1)),
    .post ⟨0x1020, 0x1000000, 0x1008400⟩, .round]

def enumerated : System :=
  enumeration.foldl (fun s a => (s.step memory a).getD s) (start memory)

theorem run_enumeration : Run (DeliversStep memory 1) (start memory) enumeration enumerated :=
  .cons ⟨rfl, trivial⟩ (.cons ⟨rfl, not_ep1 _ (by decide)⟩ (.cons ⟨rfl, trivial⟩
    (.cons ⟨rfl, trivial⟩ (.cons ⟨rfl, not_ep1 _ (by decide)⟩ (.cons ⟨rfl, trivial⟩
    (.cons ⟨rfl, trivial⟩ (.cons ⟨rfl, trivial⟩ (.cons ⟨rfl, not_ep1 _ (by decide)⟩
    (.cons ⟨rfl, trivial⟩ (.cons ⟨rfl, not_ep1 _ (by decide)⟩ (.cons ⟨rfl, trivial⟩
    (.cons ⟨rfl, trivial⟩ (.cons ⟨rfl, trivial⟩ (.cons ⟨rfl, trivial⟩
    (.cons ⟨rfl, not_ep1 _ (by decide)⟩ (.cons ⟨rfl, trivial⟩ (.nil _)))))))))))))))))

/-- A report of that keyboard. -/
def keyEvent : Trb := ⟨0x2000, 0x1000000, 0x1038000⟩

/-- The first report of the keyboard. -/
theorem keyboard_conserved_key :
    ∃ s₁ s : System, s.reports = [keyEvent.withCycle true] ∧ Conserved 1 s₁ s := by
  have hafter : ∃ s, Run (fun s a t => DeliversStep memory 1 s a t ∧ s.Undisturbed 1 a)
      (enumerated.call memory .configured) [.post keyEvent, .call .poll, .round] s ∧
      s.reports = [keyEvent.withCycle true] := by
    refine ⟨_, .cons ⟨⟨rfl, fun _ => by decide⟩, trivial⟩ (.cons ⟨⟨rfl, trivial⟩, trivial⟩
      (.cons ⟨⟨rfl, trivial⟩, ?_⟩ (.nil _))), by decide⟩
    intro ev loop hev hloop
    obtain rfl := Option.some.inj hev
    obtain rfl := Option.some.inj hloop
    decide
  obtain ⟨s, hafter, hreports⟩ := hafter
  exact ⟨_, s, hreports, keyboard_conserved (by decide) run_enumeration (by decide) (by decide)
    rfl hafter⟩

/-- The flush before the next port takes the report: then there is no transfer any more. -/
theorem keyEvent_flushed :
    ∃ s : System, Run (DeliversStep memory 1) (start memory) enumeration enumerated ∧
      enumerated.kbd.slot = 1 ∧
      Step memory enumerated (.call .configured) (enumerated.call memory .configured) ∧
      Run (DeliversStep memory 1) (enumerated.call memory .configured)
        [.post keyEvent, .call .flush, .round, .round] s ∧
      s.pc = .idle ∧ ¬ Conserved 1 (enumerated.call memory .configured) s := by
  refine ⟨_, run_enumeration, by decide, rfl, .cons ⟨rfl, fun _ => by decide⟩ (.cons ⟨rfl, trivial⟩
    (.cons ⟨rfl, trivial⟩ (.cons ⟨rfl, trivial⟩ (.nil _)))), by decide, fun h => ?_⟩
  have hone := h.one
  revert hone
  decide

end Rhoudveine.Xhci.System
