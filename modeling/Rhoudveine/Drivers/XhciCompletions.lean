import Rhoudveine.Drivers.XhciEvents

/-!
# Completions of commands

Which completion event `xhci_send_command` returns with, when the controller may complete a command
at any time after it was sent.
-/

namespace Rhoudveine.Xhci.System

/-! ## Requests and completions -/

/-- The controller completes commands that were sent, each once. -/
def Completes (s : System) : Action → Prop
  | .post ev => isCompletion ev = true → ev.parameter ∈ s.pending
  | _ => True

/-- The commands whose completion events no loop has taken. -/
def completions (s : System) : List UInt64 :=
  (s.events.unprocessed.filter isCompletion).map Trb.parameter

/-- A command is only sent when all earlier ones have been completed and their events taken. -/
def SendsAlone (s : System) : Action → Prop
  | .call (.sendCommand command) =>
    (xhciEnqueueCommand s.cmd command.trb).isSome → s.pending = [] ∧ s.completions = []
  | _ => True

/-- Each call that returned with a completion event returned with that of its own TRB. -/
def Matched (s : System) : Prop := ∀ x ∈ s.returned, x.2.parameter = x.1

def CompletesStep (m : Memory) (s : System) (a : Action) (t : System) : Prop :=
  Step m s a t ∧ s.Completes a

/-! ## The invariant -/

/-- While a call waits, its completion is the only one to come. -/
structure Answered (s : System) : Prop where
  sound : s.Sound
  awaits : ∀ trb timeout, s.pc = .sendCommand trb timeout → s.pending ++ s.completions = [trb]
  matched : s.Matched

variable {m : Memory} {s t : System} {ev : Trb}

theorem Answered.start (m : Memory) : (start m).Answered := by
  constructor
  · exact Sound.start m
  · intro trb timeout hpc
    cases hpc
  · intro x hx
    cases hx

/-- Outside of `xhci_send_command` there is nothing to show. -/
theorem Answered.of_quiet (h : s.Answered) (ht : t.Sound)
    (hpc : ∀ trb timeout, t.pc ≠ .sendCommand trb timeout) (hreturned : t.returned = s.returned) :
    t.Answered := by
  constructor
  · exact ht
  · intro trb timeout hwaits
    exact absurd hwaits (hpc trb timeout)
  · intro x hx
    rw [hreturned] at hx
    exact h.matched x hx

@[simp] theorem isCompletion_withCycle (ev : Trb) (c : Bool) :
    isCompletion (ev.withCycle c) = isCompletion ev := by
  rw [isCompletion, Trb.withCycle_type, isCompletion]

theorem completions_cons {u : List Trb} (h : s.events.unprocessed = ev :: u) :
    s.completions =
      if isCompletion ev then ev.parameter :: (u.filter isCompletion).map Trb.parameter
      else (u.filter isCompletion).map Trb.parameter := by
  rw [completions, h, List.filter_cons]
  split
  · rfl
  · rfl

/-! ## Steps -/

theorem Answered.post (h : s.Answered) (hcompletes : s.Completes (.post ev))
    (hpost : s.post ev = some t) : t.Answered := by
  have hsound := h.sound.post hpost
  obtain ⟨e, he, rfl⟩ := Option.map_eq_some_iff.mp hpost
  obtain ⟨-, htaken, c, hposted⟩ := h.sound.events.post he
  have hunprocessed := h.sound.events.unprocessed_post htaken hposted
  refine ⟨hsound, ?_, h.matched⟩
  intro trb timeout hpc
  have hawaits := h.awaits trb timeout hpc
  rw [completions] at hawaits ⊢
  dsimp only
  rw [hunprocessed, List.filter_append, List.map_append]
  by_cases hev : isCompletion ev = true
  · -- it is the completion that the call awaits
    obtain ⟨p, hp⟩ : ∃ p, s.pending = [p] := by
      have hmem := hcompletes hev
      cases hpending : s.pending with
      | nil =>
        rw [hpending] at hmem
        cases hmem
      | cons p rest =>
        rw [hpending, List.cons_append] at hawaits
        have hrest := (List.append_eq_nil_iff.mp (List.cons.inj hawaits).2).1
        exact ⟨p, congrArg _ hrest⟩
    have hparameter : ev.parameter = p := by
      have hmem := hcompletes hev
      rw [hp] at hmem
      exact List.mem_singleton.mp hmem
    rw [hp, List.singleton_append] at hawaits
    obtain ⟨htrb, hnone⟩ := List.cons.inj hawaits
    rw [if_pos hev, hp, hnone, hparameter, List.erase_cons_head, List.filter_singleton,
      isCompletion_withCycle, hev, ← htrb, ← hparameter]
    rfl
  · rw [if_neg hev, List.filter_singleton, isCompletion_withCycle, Bool.eq_false_of_not_eq_true hev]
    rw [Bool.cond_false, List.map_nil, List.append_nil]
    exact hawaits

theorem queueKbdTransfer_pc (m : Memory) (s : System) : (s.queueKbdTransfer m).pc = s.pc := by
  unfold queueKbdTransfer
  split
  · rfl
  · rfl

theorem queueKbdTransfer_returned (m : Memory) (s : System) :
    (s.queueKbdTransfer m).returned = s.returned := by
  unfold queueKbdTransfer
  split
  · rfl
  · rfl

theorem Answered.call {c : Call} (h : s.Answered) (hidle : s.pc = .idle)
    (halone : s.SendsAlone (.call c)) : (s.call m c).Answered := by
  have hsound := h.sound.call m c
  have hquiet (trb : UInt64) (timeout : ℕ) : s.pc ≠ .sendCommand trb timeout := by
    rw [hidle]
    exact Pc.noConfusion
  cases c with
  | sendCommand command =>
    simp only [System.call, System.sendCommand] at hsound ⊢
    have halone : (xhciEnqueueCommand s.cmd command.trb).isSome →
        s.pending = [] ∧ s.completions = [] := halone
    cases hcmd : xhciEnqueueCommand s.cmd command.trb with
    | none => exact h
    | some cmd =>
      rw [hcmd] at halone hsound
      obtain ⟨hpending, hcompletions⟩ := halone rfl
      refine ⟨hsound, ?_, h.matched⟩
      intro trb timeout hpc
      obtain ⟨rfl, -⟩ := Pc.sendCommand.inj hpc
      change (s.pending ++ [_]) ++ s.completions = _
      rw [hpending, hcompletions]
      rfl
  | flush => exact h.of_quiet hsound (fun _ _ => Pc.noConfusion) rfl
  | getDeviceDescriptor slotId => exact h.of_quiet hsound (fun _ _ => Pc.noConfusion) rfl
  | poll =>
    rw [System.call] at hsound ⊢
    by_cases hconfigured : s.kbd.configured = true
    · rw [if_pos hconfigured] at hsound ⊢
      exact h.of_quiet hsound (fun _ _ => Pc.noConfusion) rfl
    · rw [if_neg hconfigured]
      exact h
  | addressed slotId => exact h.of_quiet hsound hquiet rfl
  | resetEp1 => exact h.of_quiet hsound hquiet rfl
  | configured =>
    apply h.of_quiet hsound
    · intro trb timeout
      rw [System.call, queueKbdTransfer_pc]
      exact hquiet trb timeout
    · rw [System.call, queueKbdTransfer_returned]

/-- The event that the call takes is its own completion, or none at all. -/
theorem Answered.sendCommandRound {trb : UInt64} {timeout : ℕ} (h : s.Answered)
    (hpc : s.pc = .sendCommand trb timeout) : (s.sendCommandRound trb timeout).Answered := by
  have hsound := h.sound.sendCommandRound trb timeout
  have hawaits := h.awaits trb timeout hpc
  cases timeout with
  | zero => exact h.of_quiet hsound (fun _ _ => Pc.noConfusion) rfl
  | succ timeout =>
    rcases h.sound.takeEvent .sendCommand with ⟨-, hnone⟩ | ⟨ev, e, htake, -, hcons⟩
    · rw [System.sendCommandRound, hnone] at hsound ⊢
      refine ⟨hsound, ?_, h.matched⟩
      intro trb' timeout' hpc'
      obtain ⟨rfl, -⟩ := Pc.sendCommand.inj hpc'
      exact hawaits
    · rw [System.sendCommandRound, htake] at hsound ⊢
      dsimp only at hsound ⊢
      rw [completions_cons hcons] at hawaits
      by_cases hev : isCompletion ev = true
      · rw [if_pos hev] at hsound hawaits ⊢
        refine ⟨hsound, fun _ _ hpc' => Pc.noConfusion hpc', ?_⟩
        intro x hx
        rcases List.mem_append.mp hx with hold | hnew
        · exact h.matched x hold
        · obtain rfl := List.mem_singleton.mp hnew
          have hmem : ev.parameter ∈ [trb] := by
            rw [← hawaits]
            exact List.mem_append_right _ List.mem_cons_self
          exact List.mem_singleton.mp hmem
      · rw [if_neg hev] at hsound hawaits ⊢
        refine ⟨hsound, ?_, h.matched⟩
        intro trb' timeout' hpc'
        obtain ⟨rfl, -⟩ := Pc.sendCommand.inj hpc'
        exact hawaits

/-- The other loops do not return completions. -/
theorem flushRound_quiet (s : System) (left : ℕ) :
    (∀ trb timeout, (s.flushRound left).pc ≠ .sendCommand trb timeout) ∧
      (s.flushRound left).returned = s.returned := by
  cases left with
  | zero => exact ⟨fun _ _ => Pc.noConfusion, rfl⟩
  | succ left =>
    unfold flushRound takeEvent
    cases s.events.take with
    | none => exact ⟨fun _ _ => Pc.noConfusion, rfl⟩
    | some x => exact ⟨fun _ _ => Pc.noConfusion, rfl⟩

theorem getDeviceDescriptorRound_quiet (s : System) (slotId : UInt32) (got timeout : ℕ) :
    (∀ trb left, (s.getDeviceDescriptorRound slotId got timeout).pc ≠ .sendCommand trb left) ∧
      (s.getDeviceDescriptorRound slotId got timeout).returned = s.returned := by
  cases timeout with
  | zero => exact ⟨fun _ _ => Pc.noConfusion, rfl⟩
  | succ timeout =>
    rw [getDeviceDescriptorRound]
    split
    · unfold takeEvent
      cases s.events.take with
      | none => exact ⟨fun _ _ => Pc.noConfusion, rfl⟩
      | some x => exact ⟨fun _ _ => Pc.noConfusion, rfl⟩
    · exact ⟨fun _ _ => Pc.noConfusion, rfl⟩

theorem pollRound_quiet (m : Memory) (s : System) (left : ℕ) :
    (∀ trb timeout, (s.pollRound m left).pc ≠ .sendCommand trb timeout) ∧
      (s.pollRound m left).returned = s.returned := by
  cases left with
  | zero => exact ⟨fun _ _ => Pc.noConfusion, rfl⟩
  | succ left =>
    unfold pollRound takeEvent
    cases s.events.take with
    | none => exact ⟨fun _ _ => Pc.noConfusion, rfl⟩
    | some x =>
      dsimp only [Option.map_some]
      split
      · rw [queueKbdTransfer_pc, queueKbdTransfer_returned]
        split
        · exact ⟨fun _ _ => Pc.noConfusion, rfl⟩
        · exact ⟨fun _ _ => Pc.noConfusion, rfl⟩
      · exact ⟨fun _ _ => Pc.noConfusion, rfl⟩

theorem Answered.round (h : s.Answered) (hround : s.round m = some t) : t.Answered := by
  have hsound := h.sound.round hround
  unfold System.round at hround
  split at hround
  · cases hround
  · rename_i hpc
    obtain rfl := Option.some.inj hround
    exact h.sendCommandRound hpc
  · obtain rfl := Option.some.inj hround
    obtain ⟨hpc, hreturned⟩ := flushRound_quiet s _
    exact h.of_quiet hsound hpc hreturned
  · obtain rfl := Option.some.inj hround
    obtain ⟨hpc, hreturned⟩ := getDeviceDescriptorRound_quiet s _ _ _
    exact h.of_quiet hsound hpc hreturned
  · obtain rfl := Option.some.inj hround
    obtain ⟨hpc, hreturned⟩ := pollRound_quiet m s _
    exact h.of_quiet hsound hpc hreturned

theorem Answered.step {a : Action} (h : s.Answered) (hstep : CompletesStep m s a t)
    (halone : s.SendsAlone a) : t.Answered := by
  obtain ⟨hstep, hcompletes⟩ := hstep
  cases a with
  | call c =>
    obtain ⟨hidle, hcall⟩ := Option.ite_none_right_eq_some.mp hstep
    obtain rfl := Option.some.inj hcall
    exact h.call hidle halone
  | round => exact h.round hstep
  | post ev => exact h.post hcompletes hstep

/-! ## Runs -/

/-- If each command is sent when nothing of the earlier ones is left, each call returns with the
completion of its own TRB. -/
theorem returned_matched {actions : List Action}
    (hrun : Run (fun s a t => CompletesStep m s a t ∧ s.SendsAlone a) (start m) actions s) :
    s.Matched := by
  have hanswered : s.Answered := hrun.invariant (P := Answered)
    (fun _ _ _ hs hstep => hs.step hstep.1 hstep.2) (Answered.start m)
  exact hanswered.matched

/-- Enable Slot, completed with slot 1. -/
theorem returned_matched_enableSlot :
    ∃ s : System, s.returned = [(0x1000, ⟨0x1000, 0x1000000, 0x1008401⟩)] ∧ s.Matched := by
  let m : Memory := ⟨0x1000, ⟨0x2000, 0x3000⟩⟩
  have hrun : ∃ s, Run (fun s a t => CompletesStep m s a t ∧ s.SendsAlone a) (start m)
      [.call (.sendCommand .enableSlot), .post ⟨0x1000, 0x1000000, 0x1008400⟩, .round] s ∧
      s.returned = [(0x1000, ⟨0x1000, 0x1000000, 0x1008401⟩)] :=
    ⟨_, .cons ⟨⟨rfl, trivial⟩, fun _ => ⟨rfl, rfl⟩⟩
      (.cons ⟨⟨rfl, fun _ => List.mem_singleton.mpr rfl⟩, trivial⟩
        (.cons ⟨⟨rfl, trivial⟩, trivial⟩ (.nil _))), by decide⟩
  obtain ⟨s, hrun, hreturned⟩ := hrun
  exact ⟨s, hreturned, returned_matched hrun⟩

/-- `xhci_send_command` gives up when no event arrives. -/
theorem run_timeout (h : s.events.take = none) (trb : UInt64) (timeout : ℕ) :
    Run (CompletesStep m) { s with pc := .sendCommand trb timeout }
      (List.replicate (timeout + 1) .round) { s with pc := .idle } := by
  induction timeout with
  | zero => exact .cons ⟨rfl, trivial⟩ (.nil _)
  | succ timeout ih =>
    rw [List.replicate_succ]
    refine .cons ⟨?_, trivial⟩ ih
    change some (sendCommandRound _ _ _) = some _
    rw [sendCommandRound, takeEvent, h]
    rfl

/-- The first Enable Slot times out; the second returns with its completion. -/
theorem lateCompletion_returned :
    ∃ s : System, Run (CompletesStep ⟨0x1000, ⟨0x2000, 0x3000⟩⟩) (start ⟨0x1000, ⟨0x2000, 0x3000⟩⟩)
      ([.call (.sendCommand .enableSlot)] ++ List.replicate 2000001 .round ++
        [.call (.sendCommand .enableSlot), .post ⟨0x1000, 0x1000000, 0x1008400⟩, .round]) s ∧
      ¬ s.Matched := by
  let m : Memory := ⟨0x1000, ⟨0x2000, 0x3000⟩⟩
  let sent : System := (start m).sendCommand m .enableSlot
  have hfirst : Run (CompletesStep m) (start m) [.call (.sendCommand .enableSlot)] sent :=
    .cons ⟨rfl, trivial⟩ (.nil _)
  have hempty : (start m).events.take = none := if_neg (by decide)
  have htimeout : Run (CompletesStep m) sent (List.replicate 2000001 .round)
      { sent with pc := .idle } := run_timeout (s := sent) hempty 0x1000 2000000
  have hsecond : ∃ s, Run (CompletesStep m) { sent with pc := .idle }
      [.call (.sendCommand .enableSlot), .post ⟨0x1000, 0x1000000, 0x1008400⟩, .round] s ∧
      s.returned = [(0x1010, ⟨0x1000, 0x1000000, 0x1008401⟩)] :=
    ⟨_, .cons ⟨rfl, trivial⟩ (.cons ⟨rfl, fun _ => List.mem_cons_self⟩
      (.cons ⟨rfl, trivial⟩ (.nil _))), by decide⟩
  obtain ⟨s, hsecond, hreturned⟩ := hsecond
  refine ⟨s, (hfirst.append htimeout).append hsecond, fun hmatched => ?_⟩
  have hsame := hmatched _ (hreturned ▸ List.mem_singleton.mpr rfl)
  revert hsame
  decide

end Rhoudveine.Xhci.System
