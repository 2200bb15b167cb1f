import Rhoudveine.Drivers.Input

/-!
# The USB keyboard

`usb_kbd_process_report` of `usb_hid.c`, with `CONFIG_USB_KBD` defined.
-/

namespace Rhoudveine.Input

/-! ## The code -/

/-- `hid_kbd_report_t`. -/
structure HidKbdReport where
  modifiers : UInt8
  reserved : UInt8
  keycodes : List UInt8
  length_eq : keycodes.length = 6

def ascii (s : String) : List UInt8 := s.toList.map fun c => UInt8.ofNat c.toNat

/-- The entries behind these are 0. -/
def hidToAscii : List UInt8 :=
  [0, 0, 0, 0] ++ ascii "abcdefghijklmnopqrstuvwxyz" ++ ascii "1234567890" ++
    ascii "\n\x1b\x08\t -=[]\\" ++ [0] ++ ascii ";'\x60,./"

def hidToAsciiShift : List UInt8 :=
  [0, 0, 0, 0] ++ ascii "ABCDEFGHIJKLMNOPQRSTUVWXYZ" ++ ascii "!@#$%^&*()" ++
    ascii "\n\x1b\x08\t _+\x7b\x7d|" ++ [0] ++ ascii ":\"~<>?"

def ctrlHeld (modifiers : UInt8) : Prop := modifiers &&& 0x11 ≠ 0
def shiftHeld (modifiers : UInt8) : Prop := modifiers &&& 0x22 ≠ 0

instance (modifiers : UInt8) : Decidable (ctrlHeld modifiers) := inferInstanceAs (Decidable (_ ≠ _))
instance (modifiers : UInt8) : Decidable (shiftHeld modifiers) := inferInstanceAs (Decidable (_ ≠ _))

/-- The character of a key. -/
def character (modifiers kc : UInt8) : UInt8 :=
  if ctrlHeld modifiers ∧ kc ≥ 0x04 ∧ kc ≤ 0x1D then kc - 0x03
  else if kc < 128 then
    if shiftHeld modifiers then hidToAsciiShift.getD kc.toNat 0 else hidToAscii.getD kc.toNat 0
  else 0

/-- The loop over the keycodes: the arguments of the calls of `input_add_char`. -/
def decodeKeys (modifiers : UInt8) (prevKeycodes : List UInt8) : (keycodes : List UInt8) → List UInt8
  | [] => []
  | kc :: keycodes =>
    let rest := decodeKeys modifiers prevKeycodes keycodes
    if kc = 0x00 ∨ kc = 0x01 then rest
    else if kc ∈ prevKeycodes then rest
    else if character modifiers kc ≠ 0 then character modifiers kc :: rest
    else rest

/-- The static variables of `usb_hid.c` and what they share with other drivers. -/
structure UsbKbd where
  modifiers : UInt8
  prevKeycodes : List UInt8
  nvec : Nvec
  ring : InputRing

/-- Ctrl and F10 switch the display mode, when F10 goes down. -/
def nvecAfter (s : UsbKbd) (report : HidKbdReport) : Nvec :=
  if 0x43 ∈ report.keycodes ∧ 0x43 ∉ s.prevKeycodes ∧ ctrlHeld report.modifiers then
    nvecToggle s.nvec
  else s.nvec

/-- `usb_kbd_process_report`, with the characters it adds to the ring. -/
def usbKbdProcessReport (s : UsbKbd) (report : Option HidKbdReport) : UsbKbd × List UInt8 :=
  match report with
  | none => (s, [])
  | some report =>
    let nvec := nvecAfter s report
    if nvecSuppressConsole nvec then (⟨report.modifiers, report.keycodes, nvec, s.ring⟩, [])
    else
      let chars := decodeKeys report.modifiers s.prevKeycodes report.keycodes
      -- the keycodes of a rollover report are saved like any others
      (⟨report.modifiers, report.keycodes, nvec, chars.foldl inputAddChar s.ring⟩, chars)

/-! ## Reports of a keyboard -/

def Rollover (keycodes : List UInt8) : Prop := keycodes = List.replicate 6 0x01

instance (keycodes : List UInt8) : Decidable (Rollover keycodes) :=
  inferInstanceAs (Decidable (_ = _))

/-- A key with a character in the tables. -/
def HasCharacter (kc : UInt8) : Prop := hidToAscii.getD kc.toNat 0 ≠ 0

instance (kc : UInt8) : Decidable (HasCharacter kc) := inferInstanceAs (Decidable (_ ≠ _))

/-- The driver beside the keys that are down.  These are the keys of the last report that is no
rollover: a rollover tells nothing, and the keys stay down. -/
structure UsbKeyboard where
  driver : UsbKbd
  held : List UInt8

def UsbKeyboard.start (nvec : Nvec) (ring : InputRing) : UsbKeyboard :=
  ⟨⟨0, List.replicate 6 0, nvec, ring⟩, List.replicate 6 0⟩

def UsbKeyboard.step (k : UsbKeyboard) (report : HidKbdReport) : Option UsbKeyboard :=
  some ⟨(usbKbdProcessReport k.driver report).1,
    if Rollover report.keycodes then k.held else report.keycodes⟩

/-- The keys with a character that go down with a report. -/
def UsbKeyboard.pressed (k : UsbKeyboard) (report : HidKbdReport) : List UInt8 :=
  if Rollover report.keycodes then []
  else report.keycodes.filter fun kc => HasCharacter kc ∧ kc ∉ k.held

/-- What the keyboard may send and the state the driver must be in. -/
structure UsbKeyboard.Sends (k : UsbKeyboard) (report : HidKbdReport) : Prop where
  distinct : Rollover report.keycodes ∨ (report.keycodes.filter (· ≠ 0)).Nodup
  shown : ¬ nvecSuppressConsole (nvecAfter k.driver report)

/-- Each press emits one character, and nothing else does. -/
structure UsbKeyboard.Emits (k : UsbKeyboard) (report : HidKbdReport) : Prop where
  nodup : (k.pressed report).Nodup
  chars : (usbKbdProcessReport k.driver report).2 =
    (k.pressed report).map (character report.modifiers)

/-- The first report after a rollover has no key with a character that was down before it. -/
def UsbKeyboard.Fresh (k : UsbKeyboard) (report : HidKbdReport) : Prop :=
  Rollover k.driver.prevKeycodes → ∀ kc ∈ report.keycodes, HasCharacter kc → kc ∉ k.held

/-! ## One report -/

theorem character_ne_zero_iff (modifiers kc : UInt8) :
    character modifiers kc ≠ 0 ↔ HasCharacter kc := by
  have htables : ∀ n < 256, (UInt8.ofNat n ≥ 0x04 ∧ UInt8.ofNat n ≤ 0x1D →
      hidToAscii.getD n 0 ≠ 0 ∧ UInt8.ofNat n - 0x03 ≠ 0) ∧
      (UInt8.ofNat n < 128 →
        (hidToAsciiShift.getD n 0 ≠ 0 ↔ hidToAscii.getD n 0 ≠ 0)) ∧
      (¬ UInt8.ofNat n < 128 → hidToAscii.getD n 0 = 0) := by
    decide +kernel
  obtain ⟨hletters, hshift, hrest⟩ := htables kc.toNat kc.toNat_lt
  rw [UInt8.ofNat_toNat] at hletters hshift hrest
  unfold character HasCharacter
  by_cases hctrl : ctrlHeld modifiers ∧ kc ≥ 0x04 ∧ kc ≤ 0x1D
  · rw [if_pos hctrl]
    exact iff_of_true (hletters hctrl.2).2 (hletters hctrl.2).1
  · rw [if_neg hctrl]
    by_cases hlt : kc < 128
    · rw [if_pos hlt]
      by_cases hheld : shiftHeld modifiers
      · rw [if_pos hheld]
        exact hshift hlt
      · rw [if_neg hheld]
    · rw [if_neg hlt]
      exact iff_of_false (not_not_intro rfl) (not_not_intro (hrest hlt))

theorem not_hasCharacter {kc : UInt8} (h : kc = 0x00 ∨ kc = 0x01) : ¬ HasCharacter kc := by
  rcases h with rfl | rfl
  · decide
  · decide

theorem decodeKeys_eq (modifiers : UInt8) (prev keycodes : List UInt8) :
    decodeKeys modifiers prev keycodes =
      (keycodes.filter fun kc => HasCharacter kc ∧ kc ∉ prev).map (character modifiers) := by
  induction keycodes with
  | nil => rfl
  | cons kc keycodes ih =>
    rw [decodeKeys, ih]
    by_cases hnone : kc = 0x00 ∨ kc = 0x01
    · rw [if_pos hnone, List.filter_cons_of_neg]
      simp [not_hasCharacter hnone]
    · rw [if_neg hnone]
      by_cases hprev : kc ∈ prev
      · rw [if_pos hprev, List.filter_cons_of_neg]
        simp [hprev]
      · rw [if_neg hprev]
        by_cases hchar : HasCharacter kc
        · rw [if_pos ((character_ne_zero_iff modifiers kc).mpr hchar), List.filter_cons_of_pos]
          · rfl
          · simp [hchar, hprev]
        · rw [if_neg fun hne => hchar ((character_ne_zero_iff modifiers kc).mp hne),
            List.filter_cons_of_neg]
          simp [hchar]

variable {k l : UsbKeyboard} {report : HidKbdReport}

theorem UsbKeyboard.Sends.chars (h : k.Sends report) :
    (usbKbdProcessReport k.driver report).2 =
      (report.keycodes.filter fun kc => HasCharacter kc ∧ kc ∉ k.driver.prevKeycodes).map
        (character report.modifiers) := by
  rw [← decodeKeys_eq]
  unfold usbKbdProcessReport
  dsimp only
  rw [if_neg h.shown]

theorem UsbKeyboard.Sends.nodup (h : k.Sends report) : (k.pressed report).Nodup := by
  unfold UsbKeyboard.pressed
  by_cases hroll : Rollover report.keycodes
  · rw [if_pos hroll]
    exact List.nodup_nil
  · rw [if_neg hroll]
    refine List.Nodup.sublist ?_ (h.distinct.resolve_left hroll)
    apply List.monotone_filter_right
    intro kc hkc
    have hchar : HasCharacter kc := (of_decide_eq_true hkc).1
    exact decide_eq_true fun hzero => not_hasCharacter (Or.inl hzero) hchar

/-- No key of a rollover report has a character. -/
theorem not_mem_of_rollover {keycodes : List UInt8} (h : Rollover keycodes) {kc : UInt8}
    (hchar : HasCharacter kc) : kc ∉ keycodes := by
  intro hmem
  rw [h] at hmem
  exact not_hasCharacter (Or.inr (List.eq_of_mem_replicate hmem)) hchar

/-- Where the driver knows what the keyboard knows, except after a rollover. -/
def UsbKeyboard.Inv (k : UsbKeyboard) : Prop :=
  k.driver.prevKeycodes = k.held ∨ Rollover k.driver.prevKeycodes

/-- After a rollover every key of the report counts as pressed. -/
theorem filter_map_eq_iff {keycodes prev held : List UInt8} (modifiers : UInt8)
    (hroll : Rollover prev) :
    (keycodes.filter fun kc => HasCharacter kc ∧ kc ∉ prev).map (character modifiers) =
        (keycodes.filter fun kc => HasCharacter kc ∧ kc ∉ held).map (character modifiers) ↔
      ∀ kc ∈ keycodes, HasCharacter kc → kc ∉ held := by
  constructor
  · intro heq kc hkc hchar
    have hlen := congrArg List.length heq
    rw [List.length_map, List.length_map] at hlen
    have hsub : (keycodes.filter fun kc => HasCharacter kc ∧ kc ∉ held).Sublist
        (keycodes.filter fun kc => HasCharacter kc ∧ kc ∉ prev) := by
      apply List.monotone_filter_right
      intro kc hkc
      have hchar : HasCharacter kc := (of_decide_eq_true hkc).1
      exact decide_eq_true ⟨hchar, not_mem_of_rollover hroll hchar⟩
    have hsame := hsub.eq_of_length hlen.symm
    have hmem : kc ∈ keycodes.filter fun kc => HasCharacter kc ∧ kc ∉ prev :=
      List.mem_filter.mpr ⟨hkc, decide_eq_true ⟨hchar, not_mem_of_rollover hroll hchar⟩⟩
    rw [← hsame] at hmem
    exact (of_decide_eq_true (List.mem_filter.mp hmem).2).2
  · intro hfresh
    congr 1
    apply List.filter_congr
    intro kc hkc
    rw [decide_eq_decide]
    exact and_congr_right fun hchar =>
      iff_of_true (not_mem_of_rollover hroll hchar) (hfresh kc hkc hchar)

theorem UsbKeyboard.Inv.emits_iff (h : k.Inv) (hsends : k.Sends report) :
    k.Emits report ↔ k.Fresh report := by
  have hchars : k.Emits report ↔ (usbKbdProcessReport k.driver report).2 =
      (k.pressed report).map (character report.modifiers) :=
    ⟨fun hemits => hemits.chars, fun heq => ⟨hsends.nodup, heq⟩⟩
  rw [hchars, hsends.chars, UsbKeyboard.Fresh, UsbKeyboard.pressed]
  by_cases hnow : Rollover report.keycodes
  · rw [if_pos hnow]
    apply iff_of_true
    · rw [List.map_nil, List.map_eq_nil_iff, List.filter_eq_nil_iff]
      intro kc hkc htrue
      exact not_mem_of_rollover hnow (of_decide_eq_true htrue).1 hkc
    · intro _ kc hkc hchar
      exact absurd hkc (not_mem_of_rollover hnow hchar)
  · rw [if_neg hnow]
    by_cases hroll : Rollover k.driver.prevKeycodes
    · rw [filter_map_eq_iff _ hroll]
      exact (imp_iff_right hroll).symm
    · rw [h.resolve_right hroll]
      rw [h.resolve_right hroll] at hroll
      exact iff_of_true rfl fun hprev => absurd hprev hroll

theorem UsbKeyboard.Inv.step (hstep : k.step report = some l) : l.Inv := by
  obtain rfl := Option.some.inj hstep
  have hprev : (usbKbdProcessReport k.driver report).1.prevKeycodes = report.keycodes := by
    unfold usbKbdProcessReport
    dsimp only
    split_ifs <;> rfl
  unfold UsbKeyboard.Inv
  dsimp only
  rw [hprev]
  by_cases hroll : Rollover report.keycodes
  · exact Or.inr hroll
  · rw [if_neg hroll]
    exact Or.inl rfl

/-! ## Runs -/

/-- Every press emits its character once, and holding a key emits none, in exactly the runs in
which no key is held from before a rollover until after it. -/
theorem process_report_emits_iff {nvec : Nvec} {ring : InputRing} {reports : List HidKbdReport}
    (hsends : Always UsbKeyboard.step UsbKeyboard.Sends (.start nvec ring) reports) :
    Always UsbKeyboard.step UsbKeyboard.Emits (.start nvec ring) reports ↔
      Always UsbKeyboard.step UsbKeyboard.Fresh (.start nvec ring) reports :=
  always_iff (fun _ _ h hsends => h.emits_iff hsends)
    (fun _ _ _ _ _ _ hstep => UsbKeyboard.Inv.step hstep) (Or.inl rfl) hsends

/-- The only key that is down is `kc`. -/
def onlyKey (kc : UInt8) : HidKbdReport := ⟨0, 0, [kc, 0, 0, 0, 0, 0], rfl⟩

def rollover : HidKbdReport := ⟨0, 0, List.replicate 6 0x01, rfl⟩

def shellMode : Nvec := ⟨.shell, true⟩

def emptyRing : InputRing := ⟨0, 0, fun _ => 0⟩

/-- A rollover between two keys. -/
theorem process_report_emits_iff_ab :
    Always UsbKeyboard.step UsbKeyboard.Emits (.start shellMode emptyRing)
      [onlyKey 0x04, onlyKey 0x04, rollover, onlyKey 0x05] := by
  refine (process_report_emits_iff ?_).mpr ?_
  · refine .cons rfl ⟨by decide, by decide⟩ (.cons rfl ⟨by decide, by decide⟩ ?_)
    exact .cons rfl ⟨by decide, by decide⟩ (.cons rfl ⟨by decide, by decide⟩ trivial)
  · unfold UsbKeyboard.Fresh
    refine .cons rfl (by decide) (.cons rfl (by decide) ?_)
    exact .cons rfl (by decide) (.cons rfl (by decide +kernel) trivial)

/-- One key held through a rollover. -/
theorem held_key_repeated :
    ¬ ∀ (nvec : Nvec) (ring : InputRing) (reports : List HidKbdReport),
      Always UsbKeyboard.step UsbKeyboard.Sends (.start nvec ring) reports →
        Always UsbKeyboard.step UsbKeyboard.Emits (.start nvec ring) reports := by
  intro hall
  have hsends : Always UsbKeyboard.step UsbKeyboard.Sends (.start shellMode emptyRing)
      [onlyKey 0x04, rollover, onlyKey 0x04] := by
    refine .cons rfl ⟨by decide, by decide⟩ (.cons rfl ⟨by decide, by decide⟩ ?_)
    exact .cons rfl ⟨by decide, by decide⟩ trivial
  have hthird := (((hall _ _ _ hsends).2 _ rfl).2 _ rfl).1.chars
  revert hthird
  decide

end Rhoudveine.Input
