import Mathlib

/-!
# The timer

`pit_init`, `timer_irq_handler` and `timer_sleep_ms` of `timer.c`.  What is printed is left out.
-/

namespace Rhoudveine.Core

structure Timer where
  gTimerTicks : UInt64
  gTimerFrequency : UInt32

def pitBaseFreq : UInt32 := 1193182

def timerIrqHandler (t : Timer) : Timer := { t with gTimerTicks := t.gTimerTicks + 1 }

/-- `pit_init`, with the bytes for the ports. -/
def pitInit (t : Timer) (frequencyHz : UInt32) : Timer × List (UInt16 × UInt8) :=
  let frequencyHz := if frequencyHz = 0 ∨ frequencyHz > pitBaseFreq then 100 else frequencyHz
  let divisor := pitBaseFreq / frequencyHz
  let clamped := divisor > 65535
  let divisor := if clamped then 65535 else divisor
  ({ t with gTimerFrequency := if clamped then pitBaseFreq / divisor else frequencyHz },
    [(0x43, 0x34), (0x40, (divisor &&& 0xFF).toUInt8), (0x40, (divisor >>> 8 &&& 0xFF).toUInt8)])

def targetTicks (t : Timer) (ms : UInt32) : UInt64 :=
  t.gTimerTicks + ms.toUInt64 * t.gTimerFrequency.toUInt64 / 1000

/-- The loop around `hlt`, with the number of timer interrupts between one look at
`g_timer_ticks` and the next; `none` if it is still waiting after these. -/
def sleepLoop (target : UInt64) : (wakeups : List ℕ) → Timer → Option (ℕ × Timer)
  | [], _ => none
  | k :: wakeups, t =>
    let t := timerIrqHandler^[k] t
    if t.gTimerTicks < target then (sleepLoop target wakeups t).map fun r => (k + r.1, r.2)
    else some (k, t)

/-- The number of timer interrupts from the call to its return, and the timer then. -/
def timerSleepMs (t : Timer) (ms : UInt32) (wakeups : List ℕ) : Option (ℕ × Timer) :=
  if t.gTimerFrequency = 0 then
    -- a loop that does not look at the timer
    let rounds := ms.toNat * 100000
    if wakeups.length < rounds then none
    else
      let n := (wakeups.take rounds).sum
      some (n, timerIrqHandler^[n] t)
  else sleepLoop (targetTicks t ms) wakeups t

/-- Whenever it returns, at least `ms` milliseconds' worth of interrupts have come. -/
def Waits (t : Timer) (ms : UInt32) : Prop :=
  ∀ wakeups n t', timerSleepMs t ms wakeups = some (n, t') →
    ms.toNat * t.gTimerFrequency.toNat ≤ n * 1000

/-- The target lies behind the count. -/
def Ahead (t : Timer) (ms : UInt32) : Prop :=
  (targetTicks t ms).toNat = t.gTimerTicks.toNat + ms.toNat * t.gTimerFrequency.toNat / 1000

/-! ## The frequency -/

variable {t t' : Timer} {ms frequencyHz : UInt32} {target : UInt64} {n : ℕ} {wakeups : List ℕ}

@[simp] theorem gTimerTicks_pitInit :
    (pitInit t frequencyHz).1.gTimerTicks = t.gTimerTicks := rfl

theorem gTimerFrequency_pitInit :
    0 < (pitInit t frequencyHz).1.gTimerFrequency.toNat ∧
      (pitInit t frequencyHz).1.gTimerFrequency.toNat ≤ 1193182 := by
  have hvalid : 0 < (if frequencyHz = 0 ∨ frequencyHz > pitBaseFreq then 100
        else frequencyHz).toNat ∧
      (if frequencyHz = 0 ∨ frequencyHz > pitBaseFreq then 100 else frequencyHz).toNat ≤
        1193182 := by
    split_ifs with hbad
    · decide
    · obtain ⟨hzero, hlarge⟩ := not_or.mp hbad
      have hle : frequencyHz ≤ pitBaseFreq := UInt32.not_lt.mp hlarge
      exact ⟨Nat.pos_of_ne_zero fun h => hzero (UInt32.toNat_inj.mp h), hle⟩
  unfold pitInit
  dsimp only
  generalize (if frequencyHz = 0 ∨ frequencyHz > pitBaseFreq then 100 else frequencyHz) = f at hvalid
  by_cases hclamped : pitBaseFreq / f > 65535
  · rw [if_pos hclamped, if_pos hclamped]
    decide
  · rw [if_neg hclamped]
    exact hvalid

/-! ## The loop -/

theorem gTimerTicks_iterate (n : ℕ) (t : Timer) :
    (timerIrqHandler^[n] t).gTimerTicks = t.gTimerTicks + UInt64.ofNat n := by
  induction n generalizing t with
  | zero => simp
  | succ n ih =>
    rw [Function.iterate_succ_apply, ih]
    simp [timerIrqHandler, add_assoc, add_comm]

/-- The loop ends when the count has come to the target. -/
theorem sleepLoop_some (h : sleepLoop target wakeups t = some (n, t')) :
    target ≤ t.gTimerTicks + UInt64.ofNat n := by
  induction wakeups generalizing t n with
  | nil => cases h
  | cons k wakeups ih =>
    rw [sleepLoop] at h
    split_ifs at h with hwait
    · obtain ⟨⟨m, t''⟩, hr, hn⟩ := Option.map_eq_some_iff.mp h
      obtain ⟨rfl, rfl⟩ := Prod.mk.inj hn
      have hrest := ih hr
      rw [gTimerTicks_iterate, add_assoc] at hrest
      simpa using hrest
    · obtain ⟨rfl, -⟩ := Prod.mk.inj (Option.some.inj h)
      rw [gTimerTicks_iterate] at hwait
      exact UInt64.not_lt.mp hwait

/-- One interrupt for every wakeup, up to the target. -/
theorem sleepLoop_replicate (hn : 0 < n) (h : t.gTimerTicks.toNat + n = target.toNat) :
    sleepLoop target (List.replicate n 1) t = some (n, timerIrqHandler^[n] t) := by
  induction n generalizing t with
  | zero => exact absurd hn (lt_irrefl 0)
  | succ n ih =>
    have hlt := target.toNat_lt
    have hticks : (timerIrqHandler t).gTimerTicks.toNat = t.gTimerTicks.toNat + 1 := by
      change (t.gTimerTicks + 1).toNat = _
      rw [UInt64.toNat_add]
      exact Nat.mod_eq_of_lt (by change t.gTimerTicks.toNat + 1 < _; omega)
    rw [List.replicate_succ, sleepLoop, Function.iterate_one]
    by_cases hlast : n = 0
    · have hdone : ¬ (timerIrqHandler t).gTimerTicks < target := by
        rw [UInt64.lt_iff_toNat_lt, hticks]
        omega
      rw [if_neg hdone, hlast]
      rfl
    · have hwait : (timerIrqHandler t).gTimerTicks < target := by
        rw [UInt64.lt_iff_toNat_lt, hticks]
        omega
      rw [if_pos hwait, ih (Nat.pos_of_ne_zero hlast) (by omega), Option.map_some,
        Nat.add_comm 1 n, Function.iterate_succ_apply]

/-! ## The target -/

theorem ticks_lt (h : t.gTimerFrequency.toNat ≤ 1193182) :
    ms.toNat * t.gTimerFrequency.toNat < 2 ^ 53 := by
  have hms := ms.toNat_lt
  calc ms.toNat * t.gTimerFrequency.toNat ≤ 2 ^ 32 * 1193182 := Nat.mul_le_mul hms.le h
    _ < 2 ^ 53 := by norm_num

theorem toNat_targetTicks (h : t.gTimerFrequency.toNat ≤ 1193182) :
    (targetTicks t ms).toNat =
      (t.gTimerTicks.toNat + ms.toNat * t.gTimerFrequency.toNat / 1000) % 2 ^ 64 := by
  have hlt := @ticks_lt t ms h
  have hproduct : (ms.toUInt64 * t.gTimerFrequency.toUInt64).toNat =
      ms.toNat * t.gTimerFrequency.toNat := by
    rw [UInt64.toNat_mul, UInt32.toNat_toUInt64, UInt32.toNat_toUInt64]
    exact Nat.mod_eq_of_lt (by omega)
  rw [targetTicks, UInt64.toNat_add, UInt64.toNat_div, hproduct]
  rfl

theorem ahead_of_lt (h : t.gTimerFrequency.toNat ≤ 1193182) (hticks : t.gTimerTicks.toNat < 2 ^ 63) :
    Ahead t ms := by
  have hlt := @ticks_lt t ms h
  rw [Ahead, toNat_targetTicks h]
  exact Nat.mod_eq_of_lt (by omega)

/-! ## The wait -/

theorem timerSleepMs_eq (hpos : 0 < t.gTimerFrequency.toNat) (wakeups : List ℕ) :
    timerSleepMs t ms wakeups = sleepLoop (targetTicks t ms) wakeups t := by
  have hne : t.gTimerFrequency ≠ 0 := fun h => by simp [h] at hpos
  rw [timerSleepMs, if_neg hne]

/-- In front of 2^64 the code waits for the whole ticks, and may return with the last of them. -/
theorem timerSleepMs_ahead (hpos : 0 < t.gTimerFrequency.toNat)
    (hahead : (targetTicks t ms).toNat = t.gTimerTicks.toNat + n) :
    (∀ wakeups m t', timerSleepMs t ms wakeups = some (m, t') → n ≤ m) ∧
      ∃ wakeups t', timerSleepMs t ms wakeups = some (n, t') := by
  constructor
  · intro wakeups m t' hreturn
    rw [timerSleepMs_eq hpos] at hreturn
    have hdone := UInt64.le_iff_toNat_le.mp (sleepLoop_some hreturn)
    rw [hahead, UInt64.toNat_add, UInt64.toNat_ofNat', Nat.add_mod_mod] at hdone
    have hmod := Nat.mod_le (t.gTimerTicks.toNat + m) (2 ^ 64)
    omega
  · by_cases hn : n = 0
    · refine ⟨[0], t, ?_⟩
      have hdone : ¬ t.gTimerTicks < targetTicks t ms := by
        rw [UInt64.lt_iff_toNat_lt, hahead]
        omega
      rw [timerSleepMs_eq hpos, sleepLoop, Function.iterate_zero_apply, if_neg hdone, hn]
    · refine ⟨List.replicate n 1, timerIrqHandler^[n] t, ?_⟩
      rw [timerSleepMs_eq hpos]
      exact sleepLoop_replicate (Nat.pos_of_ne_zero hn) hahead.symm

/-- A target that has wrapped lies before the count. -/
theorem timerSleepMs_wrapped (hpos : 0 < t.gTimerFrequency.toNat)
    (hbehind : (targetTicks t ms).toNat ≤ t.gTimerTicks.toNat) :
    timerSleepMs t ms [0] = some (0, t) := by
  have hdone : ¬ t.gTimerTicks < targetTicks t ms := by
    rw [UInt64.lt_iff_toNat_lt]
    omega
  rw [timerSleepMs_eq hpos, sleepLoop, Function.iterate_zero_apply, if_neg hdone]

theorem waits_iff (hpos : 0 < t.gTimerFrequency.toNat) (h : t.gTimerFrequency.toNat ≤ 1193182) :
    Waits t ms ↔ 1000 ∣ ms.toNat * t.gTimerFrequency.toNat ∧
      t.gTimerTicks.toNat + ms.toNat * t.gTimerFrequency.toNat / 1000 < 2 ^ 64 := by
  have htarget := @toNat_targetTicks t ms h
  have hproduct := @ticks_lt t ms h
  have hticks := t.gTimerTicks.toNat_lt
  by_cases hlt : t.gTimerTicks.toNat + ms.toNat * t.gTimerFrequency.toNat / 1000 < 2 ^ 64
  · rw [Nat.mod_eq_of_lt hlt] at htarget
    obtain ⟨henough, wakeups, t', hreturn⟩ := timerSleepMs_ahead hpos htarget
    constructor
    · intro hwaits
      have hlong := hwaits wakeups _ t' hreturn
      exact ⟨Nat.dvd_of_mod_eq_zero (by omega), hlt⟩
    · rintro ⟨hdvd, -⟩ wakeups m t' hreturn
      have hwhole := Nat.div_mul_cancel hdvd
      calc ms.toNat * t.gTimerFrequency.toNat =
          ms.toNat * t.gTimerFrequency.toNat / 1000 * 1000 := hwhole.symm
        _ ≤ m * 1000 := Nat.mul_le_mul_right _ (henough wakeups m t' hreturn)
  · have hbehind : (targetTicks t ms).toNat ≤ t.gTimerTicks.toNat := by
      rw [htarget]
      omega
    constructor
    · intro hwaits
      have hshort := hwaits [0] 0 t (timerSleepMs_wrapped hpos hbehind)
      omega
    · rintro ⟨-, hlt'⟩
      exact absurd hlt' hlt

/-- `timer_sleep_ms` waits long enough exactly for a whole number of ticks in front of 2^64. -/
theorem timer_sleep_ms_waits_iff (t₀ : Timer) (frequencyHz ms : UInt32) :
    (Waits (pitInit t₀ frequencyHz).1 ms ∧
      (t₀.gTimerTicks.toNat < 2 ^ 63 → Ahead (pitInit t₀ frequencyHz).1 ms)) ↔
      1000 ∣ ms.toNat * (pitInit t₀ frequencyHz).1.gTimerFrequency.toNat ∧
        t₀.gTimerTicks.toNat +
          ms.toNat * (pitInit t₀ frequencyHz).1.gTimerFrequency.toNat / 1000 < 2 ^ 64 := by
  obtain ⟨hpos, hle⟩ := @gTimerFrequency_pitInit t₀ frequencyHz
  have hwaits := @waits_iff _ ms hpos hle
  rw [gTimerTicks_pitInit] at hwaits
  rw [hwaits]
  exact and_iff_left fun hticks => ahead_of_lt hle hticks

/-- At 100 Hz, a sleep of 5 ms is over before the next interrupt. -/
theorem short_sleep_does_not_wait : ¬ Waits (pitInit ⟨0, 0⟩ 100).1 5 := by
  intro h
  have hshort := h [0] 0 _ (timerSleepMs_wrapped (by decide) (by decide))
  exact absurd hshort (by decide)

end Rhoudveine.Core
