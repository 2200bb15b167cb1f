import Rhoudveine.Drivers.Ahci

/-!
# When an AHCI transfer reports the truth

The contract of `port_read` and `port_write` speaks about the trace: 0 is returned
exactly when the issued command was seen to complete without a task file error.
Both polling loops decrement their counter once more when they give up, so the
test `timeout == 0` after them hits the last poll instead of the exhausted budget.
-/

namespace Rhoudveine.Ahci
open Search

/-! ## The contract -/

/-- In `post` some poll of `ci` saw `bit` clear, and no read of `is` saw a task file
error. -/
def Observed (bit : UInt32) (post : List Event) : Prop :=
  (∃ ci, Event.read .ci ci ∈ post ∧ ci &&& bit = 0) ∧
    ∀ is, Event.read .is is ∈ post → is &&& taskFileError = 0

/-- A command was issued and observed to complete. -/
def Completed (trace : List Event) : Prop :=
  ∃ pre bit post, trace = pre ++ .write .ci bit :: post ∧ Observed bit post

/-- What a transfer with result `r` and the given trace promises. -/
structure Contract (r : ℤ) (trace : List Event) : Prop where
  failure : r = 0 ∨ r = -1
  success_iff : r = 0 ↔ Completed trace
  issued_ready : ∀ pre bit post, trace = pre ++ .write .ci bit :: post →
    ∃ tfd, Event.read .tfd tfd ∈ pre ∧ ¬ Busy tfd

/-! ## Registers that answer in time -/

/-- The port is first seen ready by the read number `k` of `tfd`. -/
def FirstReady (port : Port) (k : ℕ) : Prop :=
  ¬ Busy (port.reading .tfd k) ∧ ∀ i < k, Busy (port.reading .tfd i)

/-- Neither completion nor an error shows in the first `n` polls.  The first read of
`ci` belongs to `find_cmdslot`. -/
def Pending (port : Port) (bit : UInt32) (n : ℕ) : Prop :=
  ∀ i < n, port.reading .ci (1 + i) &&& bit ≠ 0 ∧ port.reading .is i &&& taskFileError = 0

/-- The registers avoid the two outcomes the completion loop confuses: completion on
its last poll, and no completion at all. -/
def CompletesInTime (port : Port) (bit : UInt32) : Prop :=
  ¬ (Pending port bit 999999 ∧ port.reading .ci (1 + 999999) &&& bit = 0) ∧
    ¬ (Pending port bit 1000000 ∧ port.reading .is 1000000 &&& taskFileError = 0)

/-- If a slot is free, the port becomes ready within the budget; the command then
completes in time, unless the last poll of the ready loop saw it ready and nothing is
issued. -/
def Timely (port : Port) : Prop :=
  ∀ slot, freeSlot (port.reading .sact 0 ||| port.reading .ci 0) = some slot →
    ∃ k ≤ 100000, FirstReady port k ∧ (k = 100000 ∨ CompletesInTime port (slotBit slot))

/-! ## Traces with one issue -/

def Event.isIssue : Event → Prop
  | .write .ci _ => True
  | _ => False

/-- A list splits in one way around its only element with a property. -/
theorem append_cons_unique {α : Type*} {p : α → Prop} {a b : α} {l l' m m' : List α}
    (hl : ∀ x ∈ l, ¬ p x) (hm : ∀ x ∈ m, ¬ p x) (hb : p b) (h : l ++ a :: m = l' ++ b :: m') :
    l = l' ∧ a = b ∧ m = m' := by
  induction l generalizing l' with
  | nil =>
    cases l' with
    | nil => simpa using h
    | cons c l' =>
      obtain ⟨rfl, rfl⟩ := List.cons.inj h
      exact absurd hb (hm b (by simp))
  | cons c l ih =>
    cases l' with
    | nil =>
      obtain ⟨rfl, -⟩ := List.cons.inj h
      exact absurd hb (hl c (by simp))
    | cons c' l' =>
      obtain ⟨rfl, htail⟩ := List.cons.inj h
      obtain ⟨rfl, hab, hmm⟩ := ih (fun x hx => hl x (List.mem_cons_of_mem _ hx)) htail
      exact ⟨rfl, hab, hmm⟩

theorem contract_of_no_issue {trace : List Event} (h : ∀ e ∈ trace, ¬ e.isIssue) :
    Contract (-1) trace := by
  have hsplit (pre bit post) (heq : trace = pre ++ .write .ci bit :: post) : False :=
    h (.write .ci bit) (by simp [heq]) trivial
  refine ⟨Or.inr rfl, ?_, fun pre bit post heq => (hsplit pre bit post heq).elim⟩
  constructor
  · intro h0
    omega
  · rintro ⟨pre, bit, post, heq, -⟩
    exact (hsplit pre bit post heq).elim

/-- The contract of a trace that issues one command. -/
theorem contract_issued_iff {r : ℤ} {pre post : List Event} {bit : UInt32}
    (hpre : ∀ e ∈ pre, ¬ e.isIssue) (hpost : ∀ e ∈ post, ¬ e.isIssue) :
    Contract r (pre ++ .write .ci bit :: post) ↔
      (r = 0 ∨ r = -1) ∧ (r = 0 ↔ Observed bit post) ∧
        ∃ tfd, Event.read .tfd tfd ∈ pre ∧ ¬ Busy tfd := by
  have hunique (pre' bit' post')
      (heq : pre ++ Event.write .ci bit :: post = pre' ++ Event.write .ci bit' :: post') :
      pre = pre' ∧ bit = bit' ∧ post = post' := by
    obtain ⟨h1, h2, h3⟩ := append_cons_unique hpre hpost (show Event.isIssue (.write .ci bit') from trivial) heq
    exact ⟨h1, by simpa using h2, h3⟩
  have hcompleted : Completed (pre ++ .write .ci bit :: post) ↔ Observed bit post := by
    constructor
    · rintro ⟨pre', bit', post', heq, hobs⟩
      obtain ⟨rfl, rfl, rfl⟩ := hunique pre' bit' post' heq
      exact hobs
    · intro hobs
      exact ⟨pre, bit, post, rfl, hobs⟩
  constructor
  · intro h
    exact ⟨h.failure, h.success_iff.trans hcompleted, h.issued_ready pre bit post rfl⟩
  · rintro ⟨hfail, hsuccess, hready⟩
    refine ⟨hfail, hsuccess.trans hcompleted.symm, fun pre' bit' post' heq => ?_⟩
    obtain ⟨rfl, -, -⟩ := hunique pre' bit' post' heq
    exact hready

/-! ## The polling loops -/

/-- `n` reads of `tfd`. -/
def readTfds (port : Port) : ℕ → Io → Io
  | 0, io => io
  | n + 1, io => readTfds port n (io.read port .tfd).2

/-- `n` polls that saw neither completion nor an error. -/
def pollRounds (port : Port) : ℕ → Io → Io
  | 0, io => io
  | n + 1, io => pollRounds port n ((io.read port .ci).2.read port .is).2

theorem readTfds_spec (port : Port) (n : ℕ) (io : Io) :
    (∀ r, r ≠ .tfd → (readTfds port n io).reads r = io.reads r) ∧
      (readTfds port n io).reads .tfd = io.reads .tfd + n ∧
      (readTfds port n io).trace = io.trace ++
        (List.range' (io.reads .tfd) n).map fun i => .read .tfd (port.reading .tfd i) := by
  induction n generalizing io with
  | zero => simp [readTfds]
  | succ n ih =>
    obtain ⟨hother, htfd, htrace⟩ := ih (io.read port .tfd).2
    refine ⟨fun r hr => ?_, ?_, ?_⟩
    · rw [readTfds, hother r hr, Io.read_reads_of_ne _ _ hr]
    · rw [readTfds, htfd, Io.read_reads_self, Nat.add_assoc, Nat.add_comm 1]
    · rw [readTfds, htrace, Io.read_trace, Io.read_reads_self, List.range'_succ]
      simp

/-- The counters after a poll of `ci` and `is`. -/
theorem poll_reads (port : Port) (io : Io) :
    ((io.read port .ci).2.read port .is).2.reads .ci = io.reads .ci + 1 ∧
      ((io.read port .ci).2.read port .is).2.reads .is = io.reads .is + 1 := by
  constructor
  · rw [Io.read_reads_of_ne _ _ (by decide), Io.read_reads_self]
  · rw [Io.read_reads_self, Io.read_reads_of_ne _ _ (by decide)]

theorem pollRounds_spec (port : Port) (n : ℕ) (io : Io) :
    (pollRounds port n io).reads .ci = io.reads .ci + n ∧
      (pollRounds port n io).reads .is = io.reads .is + n ∧
      (pollRounds port n io).trace = io.trace ++ (List.range n).flatMap fun i =>
        [.read .ci (port.reading .ci (io.reads .ci + i)),
          .read .is (port.reading .is (io.reads .is + i))] := by
  induction n generalizing io with
  | zero => simp [pollRounds]
  | succ n ih =>
    obtain ⟨hci, his, htrace⟩ := ih ((io.read port .ci).2.read port .is).2
    rw [(poll_reads port io).1] at hci htrace
    rw [(poll_reads port io).2] at his htrace
    refine ⟨?_, ?_, ?_⟩
    · rw [pollRounds, hci, Nat.add_assoc, Nat.add_comm 1]
    · rw [pollRounds, his, Nat.add_assoc, Nat.add_comm 1]
    · rw [pollRounds, htrace, List.range_succ_eq_map, List.flatMap_cons, List.flatMap_map]
      simp [Io.read_reads_of_ne, Nat.add_assoc, Nat.add_comm 1]

/-- Busy readings are skipped. -/
theorem waitReady_skip (port : Port) {n timeout : ℕ} {io : Io} (hn : n ≤ timeout)
    (h : ∀ i < n, Busy (port.reading .tfd (io.reads .tfd + i))) :
    waitReady port timeout io = waitReady port (timeout - n) (readTfds port n io) := by
  induction n generalizing timeout io with
  | zero => rfl
  | succ n ih =>
    obtain ⟨timeout, rfl⟩ : ∃ t, timeout = t + 1 := ⟨timeout - 1, by omega⟩
    have hbusy : Busy (io.read port .tfd).1 := h 0 (by omega)
    simp only [waitReady, readTfds, if_pos hbusy, Nat.add_sub_add_right]
    refine ih (by omega) fun i hi => ?_
    rw [Io.read_reads_self, Nat.add_assoc, Nat.add_comm 1]
    exact h (i + 1) (by omega)

/-- Polls that see nothing are skipped. -/
theorem waitDone_skip (port : Port) (bit : UInt32) {n timeout : ℕ} {io : Io} (hn : n ≤ timeout)
    (h : ∀ i < n, port.reading .ci (io.reads .ci + i) &&& bit ≠ 0 ∧
      port.reading .is (io.reads .is + i) &&& taskFileError = 0) :
    waitDone port bit timeout io = waitDone port bit (timeout - n) (pollRounds port n io) := by
  induction n generalizing timeout io with
  | zero => rfl
  | succ n ih =>
    obtain ⟨timeout, rfl⟩ : ∃ t, timeout = t + 1 := ⟨timeout - 1, by omega⟩
    obtain ⟨hci, his⟩ := h 0 (by omega)
    have hci' : ¬ (io.read port .ci).1 &&& bit = 0 := hci
    have his' : ¬ ((io.read port .ci).2.read port .is).1 &&& taskFileError ≠ 0 := by
      rw [Io.read_fst, Io.read_reads_of_ne _ _ (by decide)]
      exact not_not.mpr his
    simp only [waitDone, pollRounds, if_neg hci', if_neg his', Nat.add_sub_add_right]
    refine ih (by omega) fun i hi => ?_
    rw [(poll_reads port io).1, (poll_reads port io).2, Nat.add_assoc, Nat.add_assoc,
      Nat.add_comm 1]
    exact h (i + 1) (by omega)

/-! ## After the issue -/

/-- The events of `n` polls after `find_cmdslot` has read `ci` once. -/
def pollTrace (port : Port) (n : ℕ) : List Event :=
  (List.range n).flatMap fun i =>
    [.read .ci (port.reading .ci (1 + i)), .read .is (port.reading .is i)]

/-- Pending polls show neither completion nor an error, and issue nothing. -/
theorem pollTrace_pending {port : Port} {bit : UInt32} {n : ℕ} (h : Pending port bit n) :
    (∀ ci, Event.read .ci ci ∈ pollTrace port n → ci &&& bit ≠ 0) ∧
      (∀ is, Event.read .is is ∈ pollTrace port n → is &&& taskFileError = 0) ∧
      ∀ e ∈ pollTrace port n, ¬ e.isIssue := by
  simp only [pollTrace, List.mem_flatMap, List.mem_range, List.mem_cons, List.not_mem_nil, or_false]
  refine ⟨?_, ?_, ?_⟩
  · rintro ci ⟨i, hi, heq | heq⟩
    · cases heq
      exact (h i hi).1
    · cases heq
  · rintro is ⟨i, hi, heq | heq⟩
    · cases heq
    · cases heq
      exact (h i hi).2
  · rintro e ⟨i, -, rfl | rfl⟩ <;> exact id

/-- How the completion loop ends: on a poll that saw the bit clear, on one that saw a
task file error, or with its budget used up. -/
inductive Outcome (port : Port) (bit : UInt32) (budget : ℕ) (io : Io) : Option ℤ × Io → Prop
  | done {j : ℕ} {io' : Io} : j < budget → Pending port bit j →
      port.reading .ci (1 + j) &&& bit = 0 → io'.reads .is = j →
      io'.trace = io.trace ++ (pollTrace port j ++ [.read .ci (port.reading .ci (1 + j))]) →
      Outcome port bit budget io (some ((budget - 1 - j : ℕ) : ℤ), io')
  | failed {j : ℕ} {io' : Io} : j < budget → Pending port bit j →
      port.reading .ci (1 + j) &&& bit ≠ 0 → port.reading .is j &&& taskFileError ≠ 0 →
      io'.trace = io.trace ++ (pollTrace port j ++
        [.read .ci (port.reading .ci (1 + j)), .read .is (port.reading .is j)]) →
      Outcome port bit budget io (none, io')
  | exhausted {io' : Io} : Pending port bit budget → io'.reads .is = budget →
      io'.trace = io.trace ++ pollTrace port budget → Outcome port bit budget io (some (-1), io')

theorem waitDone_outcome (port : Port) (bit : UInt32) (budget : ℕ) {io : Io}
    (hci : io.reads .ci = 1) (his : io.reads .is = 0) :
    Outcome port bit budget io (waitDone port bit budget io) := by
  have hskip (n : ℕ) (hn : n ≤ budget) (hpend : Pending port bit n) :
      ∃ io', waitDone port bit budget io = waitDone port bit (budget - n) io' ∧
        io'.reads .ci = 1 + n ∧ io'.reads .is = n ∧
        io'.trace = io.trace ++ pollTrace port n := by
    obtain ⟨h1, h2, h3⟩ := pollRounds_spec port n io
    refine ⟨pollRounds port n io, waitDone_skip port bit hn ?_, by rw [h1, hci], by omega, ?_⟩
    · simp only [hci, his, Nat.zero_add]
      exact hpend
    · rw [h3]
      simp only [hci, his, Nat.zero_add, pollTrace]
  rcases exists_first_or_forall_not (fun i => port.reading .ci (1 + i) &&& bit = 0 ∨
    port.reading .is i &&& taskFileError ≠ 0) budget with ⟨j, hj, hstop, hbefore⟩ | hnone
  · have hpend : Pending port bit j := fun i hi =>
      ⟨(not_or.mp (hbefore i hi)).1, not_not.mp (not_or.mp (hbefore i hi)).2⟩
    obtain ⟨io', hwait, hci', his', htrace⟩ := hskip j hj.le hpend
    have hread : (io'.read port .ci).2.reads .is = j := by
      rw [Io.read_reads_of_ne _ _ (by decide), his']
    rw [hwait, show budget - j = (budget - 1 - j) + 1 by omega]
    by_cases hclear : port.reading .ci (1 + j) &&& bit = 0
    · have hbit : (io'.read port .ci).1 &&& bit = 0 := by rwa [Io.read_fst, hci']
      simp only [waitDone, if_pos hbit]
      refine .done hj hpend hclear hread ?_
      rw [Io.read_trace, htrace, hci', List.append_assoc]
    · have herr := hstop.resolve_left hclear
      have hbit : ¬ (io'.read port .ci).1 &&& bit = 0 := by rwa [Io.read_fst, hci']
      have herr' : ((io'.read port .ci).2.read port .is).1 &&& taskFileError ≠ 0 := by
        rwa [Io.read_fst, hread]
      simp only [waitDone, if_neg hbit, if_pos herr']
      refine .failed hj hpend hclear herr ?_
      rw [Io.read_trace, Io.read_trace, hread, htrace, hci', List.append_assoc, List.append_assoc]
      rfl
  · have hpend : Pending port bit budget := fun i hi =>
      ⟨(not_or.mp (hnone i hi)).1, not_not.mp (not_or.mp (hnone i hi)).2⟩
    obtain ⟨io', hwait, -, his', htrace⟩ := hskip budget le_rfl hpend
    rw [hwait, Nat.sub_self]
    exact .exhausted hpend his' htrace

/-- Whether pending polls followed by `last` observe a completion depends on `last`. -/
theorem observed_append_iff {port : Port} {bit : UInt32} {n : ℕ} (h : Pending port bit n)
    (last : List Event) : Observed bit (pollTrace port n ++ last) ↔ Observed bit last := by
  obtain ⟨hci, his, -⟩ := pollTrace_pending h
  constructor
  · rintro ⟨⟨ci, hmem, hclear⟩, herr⟩
    refine ⟨⟨ci, (List.mem_append.mp hmem).resolve_left fun hm => hci ci hm hclear, hclear⟩,
      fun is hm => herr is (List.mem_append_right _ hm)⟩
  · rintro ⟨⟨ci, hmem, hclear⟩, herr⟩
    exact ⟨⟨ci, List.mem_append_right _ hmem, hclear⟩,
      fun is hm => (List.mem_append.mp hm).elim (his is) (herr is)⟩

/-- No completion is observed without a poll that saw the bit clear. -/
theorem not_observed {bit : UInt32} {post : List Event}
    (h : ∀ ci, Event.read .ci ci ∈ post → ci &&& bit ≠ 0) : ¬ Observed bit post :=
  fun ⟨⟨ci, hmem, hclear⟩, _⟩ => h ci hmem hclear

/-- The result and the events that a transfer adds after the issue. -/
theorem awaitCompletion_spec (t : Transfer) (port : Port) (bit : UInt32) {io : Io}
    (hci : io.reads .ci = 1) (his : io.reads .is = 0) :
    ∃ post, (awaitCompletion t port bit io).2.trace = io.trace ++ post ∧
      (∀ e ∈ post, ¬ e.isIssue) ∧
      ((awaitCompletion t port bit io).1 = 0 ∨ (awaitCompletion t port bit io).1 = -1) ∧
      (((awaitCompletion t port bit io).1 = 0 ↔ Observed bit post) ↔
        CompletesInTime port bit) := by
  have hout := waitDone_outcome port bit 1000000 hci his
  unfold awaitCompletion
  generalize waitDone port bit 1000000 io = out at hout
  cases hout with
  | @done j io' hj hpend hclear his' htrace =>
    obtain ⟨-, -, hquiet⟩ := pollTrace_pending hpend
    by_cases hlast : j = 999999
    · -- the last poll leaves `timeout = 0` and is reported as a timeout
      subst hlast
      refine ⟨pollTrace port 999999 ++ [.read .ci (port.reading .ci (1 + 999999)),
        .kprintf t.timeoutText 0xFFFF0000], ?_, ?_, ?_, ?_⟩
      · simp [Io.kprintf, htrace]
      · simpa [or_imp, forall_and, Event.isIssue] using hquiet
      · simp
      · rw [observed_append_iff hpend]
        simp [Observed, hclear, CompletesInTime, hpend]
    · have hlt : j < 999999 := by omega
      have htimeout : ¬ ((1000000 - 1 - j : ℕ) : ℤ) = 0 := by omega
      have hintime : CompletesInTime port bit :=
        ⟨fun h => (h.1 j hlt).1 hclear, fun h => (h.1 j hj).1 hclear⟩
      simp only [if_neg htimeout, Io.read_fst, his']
      by_cases herr : port.reading .is j &&& taskFileError = 0
      · refine ⟨pollTrace port j ++ [.read .ci (port.reading .ci (1 + j)),
          .read .is (port.reading .is j)], ?_, ?_, ?_, ?_⟩
        · simp [herr, his', htrace]
        · simpa [or_imp, forall_and, Event.isIssue] using hquiet
        · simp [herr]
        · rw [observed_append_iff hpend]
          simp [Observed, hclear, herr, hintime]
      · refine ⟨pollTrace port j ++ [.read .ci (port.reading .ci (1 + j)),
          .read .is (port.reading .is j),
          .kprintf "AHCI: Task file error after completion\n" 0xFFFF0000], ?_, ?_, ?_, ?_⟩
        · simp [herr, his', htrace, Io.kprintf]
        · simpa [or_imp, forall_and, Event.isIssue] using hquiet
        · simp [herr]
        · rw [observed_append_iff hpend]
          simp [Observed, hclear, herr, hintime]
  | @failed j io' hj hpend hbit herr htrace =>
    obtain ⟨-, -, hquiet⟩ := pollTrace_pending hpend
    have hintime : CompletesInTime port bit := by
      refine ⟨fun h => ?_, fun h => herr (h.1 j hj).2⟩
      by_cases hlast : j = 999999
      · subst hlast
        exact hbit h.2
      · exact herr (h.1 j (by omega)).2
    refine ⟨pollTrace port j ++ [.read .ci (port.reading .ci (1 + j)),
      .read .is (port.reading .is j), .kprintf "AHCI: Task file error\n" 0xFFFF0000],
      ?_, ?_, ?_, ?_⟩
    · simp [Io.kprintf, htrace]
    · simpa [or_imp, forall_and, Event.isIssue] using hquiet
    · simp
    · rw [observed_append_iff hpend]
      simp [Observed, hbit, hintime]
  | @exhausted io' hpend his' htrace =>
    obtain ⟨-, -, hquiet⟩ := pollTrace_pending hpend
    have hlast : port.reading .ci (1 + 999999) &&& bit ≠ 0 := (hpend 999999 (by omega)).1
    simp only [if_neg (show ¬ (-1 : ℤ) = 0 by decide), Io.read_fst, his']
    by_cases herr : port.reading .is 1000000 &&& taskFileError = 0
    · -- `timeout` is -1, which passes for success
      refine ⟨pollTrace port 1000000 ++ [.read .is (port.reading .is 1000000)], ?_, ?_, ?_, ?_⟩
      · simp [herr, his', htrace]
      · simpa [or_imp, forall_and, Event.isIssue] using hquiet
      · simp [herr]
      · rw [observed_append_iff hpend]
        simp [Observed, herr, CompletesInTime, hpend]
    · refine ⟨pollTrace port 1000000 ++ [.read .is (port.reading .is 1000000),
        .kprintf "AHCI: Task file error after completion\n" 0xFFFF0000], ?_, ?_, ?_, ?_⟩
      · simp [herr, his', htrace, Io.kprintf]
      · simpa [or_imp, forall_and, Event.isIssue] using hquiet
      · simp [herr]
      · rw [observed_append_iff hpend]
        simp [Observed, herr, CompletesInTime, hlast]

/-! ## The whole transfer -/

/-- The events of the first `n` reads of `tfd`. -/
def readyTrace (port : Port) (n : ℕ) : List Event :=
  (List.range n).map fun i => .read .tfd (port.reading .tfd i)

/-- How the ready loop ends. -/
inductive ReadyOutcome (port : Port) (budget : ℕ) (io : Io) : ℤ × Io → Prop
  | ready {k : ℕ} {io' : Io} : k ≤ budget → FirstReady port k →
      (∀ r, r ≠ .tfd → io'.reads r = io.reads r) →
      io'.trace = io.trace ++ readyTrace port (k + 1) →
      ReadyOutcome port budget io (((budget - k : ℕ) : ℤ), io')
  | exhausted {io' : Io} : (∀ i ≤ budget, Busy (port.reading .tfd i)) →
      (∀ r, r ≠ .tfd → io'.reads r = io.reads r) →
      io'.trace = io.trace ++ readyTrace port (budget + 1) →
      ReadyOutcome port budget io (-1, io')

theorem waitReady_of_not_busy (port : Port) (timeout : ℕ) {io : Io}
    (h : ¬ Busy (port.reading .tfd (io.reads .tfd))) :
    waitReady port timeout io = ((timeout : ℤ), (io.read port .tfd).2) := by
  cases timeout with
  | zero => simp [waitReady, h]
  | succ timeout => simp [waitReady, h]

theorem waitReady_outcome (port : Port) (budget : ℕ) {io : Io} (htfd : io.reads .tfd = 0) :
    ReadyOutcome port budget io (waitReady port budget io) := by
  have hskip (n : ℕ) (hn : n ≤ budget) (hbusy : ∀ i < n, Busy (port.reading .tfd i)) :
      waitReady port budget io = waitReady port (budget - n) (readTfds port n io) := by
    refine waitReady_skip port hn fun i hi => ?_
    rw [htfd, Nat.zero_add]
    exact hbusy i hi
  -- one more read after `n` of them
  have hlast (n : ℕ) :
      (∀ r, r ≠ .tfd → ((readTfds port n io).read port .tfd).2.reads r = io.reads r) ∧
        ((readTfds port n io).read port .tfd).2.trace = io.trace ++ readyTrace port (n + 1) := by
    obtain ⟨hother, hself, htrace⟩ := readTfds_spec port n io
    refine ⟨fun r hr => (Io.read_reads_of_ne _ _ hr).trans (hother r hr), ?_⟩
    rw [Io.read_trace, htrace, hself, htfd, readyTrace, List.range_succ, List.map_append,
      ← List.range_eq_range', Nat.zero_add, List.append_assoc]
    rfl
  have hself (n : ℕ) : (readTfds port n io).reads .tfd = n := by
    rw [(readTfds_spec port n io).2.1, htfd, Nat.zero_add]
  rcases exists_first_or_forall_not (fun k => ¬ Busy (port.reading .tfd k)) (budget + 1) with
    ⟨k, hk, hready, hbefore⟩ | hnone
  · have hbusy (i : ℕ) (hi : i < k) : Busy (port.reading .tfd i) := not_not.mp (hbefore i hi)
    have hready' : ¬ Busy (port.reading .tfd ((readTfds port k io).reads .tfd)) := by
      rwa [hself]
    rw [hskip k (by omega) hbusy, waitReady_of_not_busy port _ hready']
    exact .ready (by omega) ⟨hready, hbusy⟩ (hlast k).1 (hlast k).2
  · have hbusy (i : ℕ) (hi : i ≤ budget) : Busy (port.reading .tfd i) :=
      not_not.mp (hnone i (by omega))
    have hlastBusy : Busy ((readTfds port budget io).read port .tfd).1 := by
      rw [Io.read_fst, hself]
      exact hbusy budget le_rfl
    rw [hskip budget le_rfl fun i hi => hbusy i hi.le, Nat.sub_self]
    simp only [waitReady, if_pos hlastBusy]
    exact .exhausted hbusy (hlast budget).1 (hlast budget).2

theorem readyTrace_quiet (port : Port) (n : ℕ) : ∀ e ∈ readyTrace port n, ¬ e.isIssue := by
  intro e he
  obtain ⟨i, -, rfl⟩ := List.mem_map.mp he
  exact id

theorem mem_readyTrace {port : Port} {n : ℕ} {tfd : UInt32} :
    Event.read .tfd tfd ∈ readyTrace port n ↔ ∃ i < n, port.reading .tfd i = tfd := by
  simp [readyTrace]

/-- Looking for a slot reads `sact` and `ci` once each. -/
theorem findCmdslot_spec (port : Port) (mem : Memory) :
    ∃ io, findCmdslot port ((Io.start mem).write .is 0xFFFFFFFF) =
        (freeSlot (port.reading .sact 0 ||| port.reading .ci 0), io) ∧
      io.reads .tfd = 0 ∧ io.reads .ci = 1 ∧ io.reads .is = 0 ∧
      io.trace = [.write .is 0xFFFFFFFF, .read .sact (port.reading .sact 0),
        .read .ci (port.reading .ci 0)] := by
  refine ⟨_, rfl, ?_, ?_, ?_, ?_⟩ <;> simp [Io.write, Io.start]

/-- The contract of a transfer that issues its command after `io`. -/
theorem issue_contract_iff (t : Transfer) (port : Port) (bit : UInt32) {io : Io}
    (hci : io.reads .ci = 1) (his : io.reads .is = 0) (hquiet : ∀ e ∈ io.trace, ¬ e.isIssue) :
    Contract (awaitCompletion t port bit (io.write .ci bit)).1
        (awaitCompletion t port bit (io.write .ci bit)).2.trace ↔
      (∃ tfd, Event.read .tfd tfd ∈ io.trace ∧ ¬ Busy tfd) ∧ CompletesInTime port bit := by
  have hissued : (io.write .ci bit).reads .ci = 1 ∧ (io.write .ci bit).reads .is = 0 := ⟨hci, his⟩
  obtain ⟨post, htrace, hpost, hresult, htruth⟩ :=
    awaitCompletion_spec t port bit hissued.1 hissued.2
  have hsplit : (awaitCompletion t port bit (io.write .ci bit)).2.trace =
      io.trace ++ .write .ci bit :: post := by
    rw [htrace]
    simp [Io.write]
  rw [hsplit, contract_issued_iff hquiet hpost, htruth]
  exact ⟨fun ⟨_, h, hready⟩ => ⟨hready, h⟩, fun ⟨hready, h⟩ => ⟨hresult, h, hready⟩⟩

/-- A transfer honours its contract exactly when the registers answer in time. -/
theorem portTransfer_contract_iff (t : Transfer) (port : Port) (lba : UInt64) (count : UInt32)
    (buffer : UInt64) (mem : Memory) :
    Contract (portTransfer t port lba count buffer (Io.start mem)).1
        (portTransfer t port lba count buffer (Io.start mem)).2.trace ↔ Timely port := by
  obtain ⟨io, hfind, htfd, hci, his, htrace⟩ := findCmdslot_spec port mem
  have hquiet : ∀ e ∈ io.trace, ¬ e.isIssue := by
    rw [htrace]
    simp [Event.isIssue]
  simp only [portTransfer, hfind]
  cases hslot : freeSlot (port.reading .sact 0 ||| port.reading .ci 0) with
  | none =>
    refine iff_of_true (contract_of_no_issue ?_) fun slot h => ?_
    · simpa [Io.kprintf, or_imp, forall_and, Event.isIssue] using hquiet
    · rw [hslot] at h
      cases h
  | some slot =>
    have htimely : Timely port ↔ ∃ k ≤ 100000, FirstReady port k ∧
        (k = 100000 ∨ CompletesInTime port (slotBit slot)) := by
      constructor
      · exact fun h => h slot hslot
      · intro h slot' hslot'
        obtain rfl : slot = slot' := Option.some.inj (hslot.symm.trans hslot')
        exact h
    rw [htimely]
    dsimp only
    have hfilled : { io with mem := fillCommand t port.clb slot lba count buffer io.mem }.reads .tfd =
        0 := htfd
    have hout := waitReady_outcome port 100000 hfilled
    generalize waitReady port 100000
      { io with mem := fillCommand t port.clb slot lba count buffer io.mem } = out at hout
    cases hout with
    | @ready k io' hk hready hother htrace' =>
      have hquiet' : ∀ e ∈ io'.trace, ¬ e.isIssue := by
        rw [htrace']
        exact List.forall_mem_append.mpr ⟨hquiet, readyTrace_quiet port _⟩
      have hunique (k' : ℕ) (h : FirstReady port k') : k' = k := by
        rcases lt_trichotomy k' k with hlt | heq | hlt
        · exact absurd (hready.2 k' hlt) h.1
        · exact heq
        · exact absurd (h.2 k hlt) hready.1
      by_cases hlast : k = 100000
      · -- ready on the last read, and given up
        subst hlast
        refine iff_of_true (contract_of_no_issue ?_) ⟨100000, hk, hready, Or.inl rfl⟩
        simpa [Io.kprintf, or_imp, forall_and, Event.isIssue] using hquiet'
      · have htimeout : ¬ ((100000 - k : ℕ) : ℤ) = 0 := by omega
        simp only [if_neg htimeout]
        rw [issue_contract_iff t port _ ((hother .ci (by decide)).trans hci)
          ((hother .is (by decide)).trans his) hquiet']
        have hseen : ∃ tfd, Event.read .tfd tfd ∈ io'.trace ∧ ¬ Busy tfd := by
          refine ⟨port.reading .tfd k, ?_, hready.1⟩
          rw [htrace']
          exact List.mem_append_right _ (mem_readyTrace.mpr ⟨k, by omega, rfl⟩)
        constructor
        · rintro ⟨-, h⟩
          exact ⟨k, hk, hready, Or.inr h⟩
        · rintro ⟨k', -, hfirst, h⟩
          obtain rfl := hunique k' hfirst
          exact ⟨hseen, h.resolve_left hlast⟩
    | @exhausted io' hbusy hother htrace' =>
      have hquiet' : ∀ e ∈ io'.trace, ¬ e.isIssue := by
        rw [htrace']
        exact List.forall_mem_append.mpr ⟨hquiet, readyTrace_quiet port _⟩
      simp only [if_neg (show ¬ (-1 : ℤ) = 0 by decide)]
      rw [issue_contract_iff t port _ ((hother .ci (by decide)).trans hci)
        ((hother .is (by decide)).trans his) hquiet']
      refine iff_of_false ?_ fun ⟨k, hk, hready, _⟩ => hready.1 (hbusy k hk)
      rintro ⟨⟨tfd, hmem, hready⟩, -⟩
      rw [htrace', List.mem_append, mem_readyTrace, htrace] at hmem
      rcases hmem with hmem | ⟨i, hi, rfl⟩
      · simp at hmem
      · exact hready (hbusy i (by omega))

theorem portRead_contract_iff (port : Port) (lba : UInt64) (count : UInt32) (buffer : UInt64)
    (mem : Memory) :
    Contract (portRead port lba count buffer (Io.start mem)).1
      (portRead port lba count buffer (Io.start mem)).2.trace ↔ Timely port := by
  rw [portRead]
  exact portTransfer_contract_iff readDma port lba count buffer mem

theorem portWrite_contract_iff (port : Port) (lba : UInt64) (count : UInt32) (buffer : UInt64)
    (mem : Memory) :
    Contract (portWrite port lba count buffer (Io.start mem)).1
      (portWrite port lba count buffer (Io.start mem)).2.trace ↔ Timely port := by
  rw [portWrite]
  exact portTransfer_contract_iff writeDma port lba count buffer mem

/-- `port_read` and `port_write` honour the contract exactly when the registers answer
in time. -/
theorem port_read_write_contract_iff (port : Port) (lba : UInt64) (count : UInt32)
    (buffer : UInt64) (mem : Memory) :
    (Contract (portRead port lba count buffer (Io.start mem)).1
        (portRead port lba count buffer (Io.start mem)).2.trace ↔ Timely port) ∧
      (Contract (portWrite port lba count buffer (Io.start mem)).1
        (portWrite port lba count buffer (Io.start mem)).2.trace ↔ Timely port) :=
  ⟨portRead_contract_iff port lba count buffer mem, portWrite_contract_iff port lba count buffer mem⟩

/-- A port that is ready at once, has slot 0 free and never clears its bit. -/
def stuckPort : Port where
  clb := 0x100000
  reading
    | .ci, _ + 1 => 1
    | _, _ => 0

theorem stuckPort_is (n : ℕ) : stuckPort.reading .is n = 0 := by
  cases n <;> rfl

/-- The command that never completes is reported as a success. -/
theorem stuckPort_reported_complete :
    ¬ ∀ (port : Port) (lba : UInt64) (count : UInt32) (buffer : UInt64) (mem : Memory),
      Contract (portRead port lba count buffer (Io.start mem)).1
        (portRead port lba count buffer (Io.start mem)).2.trace := by
  intro hall
  have h := (portRead_contract_iff stuckPort 0 1 0x200000 fun _ => 0).mp
    (hall stuckPort 0 1 0x200000 fun _ => 0)
  obtain ⟨k, -, hready, hk⟩ := h 0 (by decide)
  have hk0 : k = 0 := by
    by_contra hne
    exact absurd (hready.2 0 (by omega)) (by decide)
  subst hk0
  refine (hk.resolve_left (by omega)).2 ⟨fun i _ => ?_, ?_⟩
  · rw [Nat.add_comm, stuckPort_is]
    exact ⟨show (1 : UInt32) &&& slotBit 0 ≠ 0 by decide, by decide⟩
  · rw [stuckPort_is]
    decide

end Rhoudveine.Ahci
