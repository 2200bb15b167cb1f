import Rhoudveine.Drivers.UsbHid

/-!
# The PS/2 keyboard

`ps2_handle_interrupt` of `ps2.c`, and the scancodes of set 1 that a keyboard sends.
-/

namespace Rhoudveine.Input

/-! ## The code -/

/-- The entries behind these are 0. -/
def scancodeMap : List UInt8 :=
  [0, 27] ++ ascii "1234567890-=\x08\tqwertyuiop[]\n" ++ [0] ++ ascii "asdfghjkl;'\x60" ++ [0] ++
    ascii "\\zxcvbnm,./" ++ [0] ++ ascii "*" ++ [0] ++ ascii " "

def scancodeShiftMap : List UInt8 :=
  [0, 0] ++ ascii "!@#$%^&*()_+" ++ [0, 0] ++ ascii "QWERTYUIOP\x7b\x7d\n" ++ [0] ++
    ascii "ASDFGHJKL:\"~" ++ [0] ++ ascii "|ZXCVBNM<>?" ++ [0] ++ ascii "*" ++ [0] ++ ascii " "

def keypadNumMap : List UInt8 := ascii "789-456+1230."

/-- The variables of the handler, with what was written to the data port and to the console. -/
structure Ps2 where
  present : Bool
  shift : Bool
  caps : Bool
  numlock : Bool
  ledsState : UInt32
  extended : Bool
  keyCtrl : Bool
  keyAlt : Bool
  nvec : Nvec
  ring : InputRing
  sent : List UInt8
  printed : List String

namespace Ps2

def breakCode (s : Ps2) (code : UInt8) : Ps2 :=
  { s with
    shift := if code = 0x2A ∨ code = 0x36 then false else s.shift
    keyCtrl := if code = 0x1D then false else s.keyCtrl
    keyAlt := if code = 0x38 then false else s.keyAlt
    extended := false }

def capsLock (s : Ps2) : Ps2 :=
  let caps := !s.caps
  let leds := (s.ledsState &&& ~~~0x04) ||| (if caps then 0x04 else 0)
  { s with
    caps := caps
    ledsState := leds
    sent := s.sent ++ [0xED, leds.toUInt8]
    printed := s.printed ++ [if caps then "CAPS ON\n" else "CAPS OFF\n"] }

def numLock (s : Ps2) : Ps2 :=
  let numlock := !s.numlock
  let leds := (s.ledsState &&& ~~~0x02) ||| (if numlock then 0x02 else 0)
  { s with
    numlock := numlock
    ledsState := leds
    sent := s.sent ++ [0xED, leds.toUInt8]
    printed := s.printed ++ [if numlock then "NUM ON\n" else "NUM OFF\n"] }

def addChar (s : Ps2) (c : UInt8) : Ps2 := { s with ring := inputAddChar s.ring c }

/-- Where a key has two characters, the second is for Shift; a letter is also shifted by
Caps Lock. -/
def regularKey (s : Ps2) (sc : UInt8) : Ps2 :=
  let c := scancodeMap.getD sc.toNat 0
  let cShift := scancodeShiftMap.getD sc.toNat 0
  if c = 0 then { s with extended := false }
  else
    let out :=
      if s.shift ∧ cShift ≠ 0 then cShift
      else if c ≥ 0x61 ∧ c ≤ 0x7A ∧ (s.shift ^^ s.caps) then c - 0x61 + 0x41
      else c
    { s.addChar out with extended := false }

/-- The make codes that are not of modifiers. -/
def makeCode (s : Ps2) (sc : UInt8) : Ps2 :=
  if sc = 0x44 ∧ s.keyCtrl ∧ s.keyAlt then { s with nvec := nvecToggle s.nvec, extended := false }
  else if nvecSuppressConsole s.nvec then { s with extended := false }
  else if sc = 0x3A then s.capsLock
  else if sc = 0x77 then s.numLock
  else if sc ≥ 0x47 ∧ sc ≤ 0x53 then
    if s.numlock then s.addChar (keypadNumMap.getD (sc.toNat - 0x47) 0) else s
  else if sc < 128 then s.regularKey sc
  else { s with extended := false }

end Ps2

/-- `ps2_handle_interrupt`, where `data` is the byte the controller holds, if its status says
that it holds one. -/
def ps2HandleInterrupt (s : Ps2) (data : Option UInt8) : Ps2 :=
  if ¬ s.present then s
  else
    match data with
    | none => s
    | some sc =>
      if sc = 0xFA ∨ sc = 0xFE then s
      else if sc &&& 0x80 ≠ 0 then s.breakCode (sc &&& 0x7F)
      -- never reached, since 0xE0 has bit 7 set
      else if sc = 0xE0 then { s with extended := true }
      else if sc = 0x2A ∨ sc = 0x36 then { s with shift := true }
      else if sc = 0x1D then { s with keyCtrl := true }
      else if sc = 0x38 then { s with keyAlt := true }
      else s.makeCode sc

/-! ## The keyboard -/

/-- The modifiers come in pairs. -/
inductive Pair
  | shift
  | ctrl
  | alt
  deriving DecidableEq, Repr

inductive Side
  | left
  | right
  deriving DecidableEq, Repr

def Side.other : Side → Side
  | left => right
  | right => left

def Pair.code : Pair → Side → UInt8
  | shift, .left => 0x2A
  | shift, .right => 0x36
  | ctrl, _ => 0x1D
  | alt, _ => 0x38

/-- Right Ctrl and right Alt have the codes of the left ones behind this. -/
def Pair.leadIn : Pair → Side → List UInt8
  | ctrl, .right => [0xE0]
  | alt, .right => [0xE0]
  | _, _ => []

/-- The code of any other key. -/
structure KeyCode where
  code : UInt8
  lt : code < 0x80
  not_modifier : ∀ p side, code ≠ Pair.code p side

inductive FakeShift
  | down
  | up
  deriving DecidableEq, Repr

def fakeBytes : Option FakeShift → List UInt8
  | none => []
  | some .down => [0xE0, 0x2A]
  | some .up => [0xE0, 0xAA]

inductive KeyEvent
  /-- A key that is held repeats its press. -/
  | press (p : Pair) (side : Side)
  | release (p : Pair) (side : Side)
  | otherPress (key : KeyCode)
  | otherRelease (key : KeyCode)
  | navPress (key : KeyCode) (fake : Option FakeShift)
  | navRelease (key : KeyCode) (fake : Option FakeShift)
  /-- Pause sends everything when it goes down. -/
  | pause

def KeyEvent.bytes : KeyEvent → List UInt8
  | press p side => p.leadIn side ++ [p.code side]
  | release p side => p.leadIn side ++ [p.code side ||| 0x80]
  | otherPress key => [key.code]
  | otherRelease key => [key.code ||| 0x80]
  | navPress key fake => fakeBytes fake ++ [0xE0, key.code]
  | navRelease key fake => [0xE0, key.code ||| 0x80] ++ fakeBytes fake
  | pause => [0xE1, 0x1D, 0x45, 0xE1, 0x9D, 0xC5]

/-- The modifiers that are down. -/
abbrev Down := Pair → Side → Bool

def KeyEvent.move (down : Down) : KeyEvent → Down
  | press p side => Function.update down p (Function.update (down p) side true)
  | release p side => Function.update down p (Function.update (down p) side false)
  | _ => down

/-- One interrupt for each byte. -/
def handleBytes (s : Ps2) (bytes : List UInt8) : Ps2 :=
  bytes.foldl (fun s sc => ps2HandleInterrupt s (some sc)) s

structure Ps2Keyboard where
  handler : Ps2
  down : Down

/-- A controller was found, and no key is down. -/
def Ps2Keyboard.start (nvec : Nvec) (ring : InputRing) : Ps2Keyboard where
  handler := ⟨true, false, false, false, 0, false, false, false, nvec, ring, [], []⟩
  down _ _ := false

def Ps2Keyboard.after (k : Ps2Keyboard) (e : KeyEvent) : Ps2Keyboard :=
  ⟨handleBytes k.handler e.bytes, e.move k.down⟩

def Ps2Keyboard.step (k : Ps2Keyboard) (e : KeyEvent) : Option Ps2Keyboard := some (k.after e)

/-- `shift`, `key_ctrl` and `key_alt`. -/
def Ps2.flag (s : Ps2) : Pair → Bool
  | .shift => s.shift
  | .ctrl => s.keyCtrl
  | .alt => s.keyAlt

/-- After the event the flags tell which pairs have a key that is down. -/
def Ps2Keyboard.Tracks (k : Ps2Keyboard) (e : KeyEvent) : Prop :=
  ∀ p, (k.after e).handler.flag p = true ↔ ∃ side, (k.after e).down p side = true

def pairDown (down : Down) (p : Pair) : Bool := down p .left || down p .right

/-- No key is released while the other one of its pair is down, and what looks like a modifier
but is none says what is the case anyway. -/
def Ps2Keyboard.Plain (k : Ps2Keyboard) : KeyEvent → Prop
  | .press _ _ => True
  | .release p side => k.down p side.other = false
  | .otherPress _ => True
  | .otherRelease _ => True
  | .navPress _ fake => ∀ f ∈ fake, (pairDown k.down .shift = true ↔ f = .down)
  | .navRelease _ fake => ∀ f ∈ fake, (pairDown k.down .shift = true ↔ f = .down)
  | .pause => pairDown k.down .ctrl = false

/-! ## One byte -/

/-- A controller was found, and the flags are these. -/
structure Ps2.Shows (s : Ps2) (flags : Pair → Bool) : Prop where
  present : s.present = true
  flag : s.flag = flags

variable {s : Ps2} {flags : Pair → Bool} {sc : UInt8}

theorem Ps2.Shows.breakCode (h : s.Shows flags) (p : Pair) (side : Side) :
    (s.breakCode (p.code side)).Shows (Function.update flags p false) := by
  obtain ⟨hpresent, rfl⟩ := h
  refine ⟨hpresent, ?_⟩
  funext q
  cases p <;> cases side <;> cases q <;> rfl

theorem Ps2.Shows.breakCode_of_ne (h : s.Shows flags) (hne : ∀ p side, sc ≠ Pair.code p side) :
    (s.breakCode sc).Shows flags := by
  obtain ⟨hpresent, rfl⟩ := h
  have hshift : ¬ (sc = 0x2A ∨ sc = 0x36) :=
    not_or.mpr ⟨hne .shift .left, hne .shift .right⟩
  refine ⟨hpresent, ?_⟩
  funext q
  cases q with
  | shift => exact if_neg hshift
  | ctrl => exact if_neg (hne .ctrl .left)
  | alt => exact if_neg (hne .alt .left)

theorem Ps2.Shows.makeCode (h : s.Shows flags) (sc : UInt8) : (s.makeCode sc).Shows flags := by
  obtain ⟨hpresent, rfl⟩ := h
  unfold Ps2.makeCode Ps2.capsLock Ps2.numLock Ps2.addChar Ps2.regularKey Ps2.addChar
  dsimp only
  split_ifs <;> exact ⟨hpresent, rfl⟩

/-- `ps2_handle_interrupt` on a byte that is there. -/
theorem ps2HandleInterrupt_eq (h : s.Shows flags) (sc : UInt8) :
    ps2HandleInterrupt s (some sc) =
      if sc = 0xFA ∨ sc = 0xFE then s
      else if sc &&& 0x80 ≠ 0 then s.breakCode (sc &&& 0x7F)
      else if sc = 0xE0 then { s with extended := true }
      else if sc = 0x2A ∨ sc = 0x36 then { s with shift := true }
      else if sc = 0x1D then { s with keyCtrl := true }
      else if sc = 0x38 then { s with keyAlt := true }
      else s.makeCode sc := if_neg (not_not_intro h.present)

/-- What the two highest bits of a byte say. -/
theorem low_byte (h : sc < 0x80) :
    sc ≠ 0xFA ∧ sc ≠ 0xFE ∧ sc &&& 0x80 = 0 ∧ (sc ||| 0x80) &&& 0x80 ≠ 0 ∧
      (sc ||| 0x80) &&& 0x7F = sc := by
  have hall : ∀ n < 128, UInt8.ofNat n ≠ 0xFA ∧ UInt8.ofNat n ≠ 0xFE ∧
      UInt8.ofNat n &&& 0x80 = 0 ∧ (UInt8.ofNat n ||| 0x80) &&& 0x80 ≠ 0 ∧
        (UInt8.ofNat n ||| 0x80) &&& 0x7F = UInt8.ofNat n := by
    decide +kernel
  have hsc := hall sc.toNat h
  rwa [UInt8.ofNat_toNat] at hsc

theorem Pair.code_lt (p : Pair) (side : Side) : p.code side < 0x80 := by
  cases p <;> cases side <;> decide

/-- The byte in front of an extended key is taken for a break code of no key. -/
theorem Ps2.Shows.leadIn (h : s.Shows flags) :
    (ps2HandleInterrupt s (some 0xE0)).Shows flags := by
  rw [ps2HandleInterrupt_eq h, if_neg (by decide), if_pos (by decide)]
  exact h.breakCode_of_ne fun p side => by cases p <;> cases side <;> decide

theorem Ps2.Shows.down (h : s.Shows flags) (p : Pair) (side : Side) :
    (ps2HandleInterrupt s (some (p.code side))).Shows (Function.update flags p true) := by
  rw [ps2HandleInterrupt_eq h]
  obtain ⟨hpresent, rfl⟩ := h
  cases p <;> cases side <;> refine ⟨hpresent, ?_⟩ <;> funext q <;> cases q <;> rfl

theorem Ps2.Shows.up (h : s.Shows flags) (p : Pair) (side : Side) :
    (ps2HandleInterrupt s (some (p.code side ||| 0x80))).Shows (Function.update flags p false) := by
  obtain ⟨-, -, -, hbit, hcode⟩ := low_byte (p.code_lt side)
  have hack : ¬ (p.code side ||| 0x80 = 0xFA ∨ p.code side ||| 0x80 = 0xFE) := by
    cases p <;> cases side <;> decide
  rw [ps2HandleInterrupt_eq h, if_neg hack, if_pos hbit, hcode]
  exact h.breakCode p side

theorem Ps2.Shows.otherDown (h : s.Shows flags) (key : KeyCode) :
    (ps2HandleInterrupt s (some key.code)).Shows flags := by
  obtain ⟨hack, hresend, hbit, -, -⟩ := low_byte key.lt
  have hlead : key.code ≠ 0xE0 := fun heq => absurd (heq ▸ hbit) (by decide)
  have hshift : ¬ (key.code = 0x2A ∨ key.code = 0x36) :=
    not_or.mpr ⟨key.not_modifier .shift .left, key.not_modifier .shift .right⟩
  have hctrl : key.code ≠ 0x1D := key.not_modifier .ctrl .left
  have halt : key.code ≠ 0x38 := key.not_modifier .alt .left
  rw [ps2HandleInterrupt_eq h, if_neg (not_or.mpr ⟨hack, hresend⟩), if_neg (not_not_intro hbit),
    if_neg hlead, if_neg hshift, if_neg hctrl, if_neg halt]
  exact h.makeCode key.code

theorem Ps2.Shows.otherUp (h : s.Shows flags) (key : KeyCode) :
    (ps2HandleInterrupt s (some (key.code ||| 0x80))).Shows flags := by
  obtain ⟨-, -, -, hbit, hcode⟩ := low_byte key.lt
  rw [ps2HandleInterrupt_eq h]
  by_cases hack : key.code ||| 0x80 = 0xFA ∨ key.code ||| 0x80 = 0xFE
  · rw [if_pos hack]
    exact h
  · rw [if_neg hack, if_pos hbit, hcode]
    exact h.breakCode_of_ne key.not_modifier

/-! ## One event -/

/-- The flags after the bytes of an event. -/
def KeyEvent.newFlags (flags : Pair → Bool) : KeyEvent → Pair → Bool
  | press p _ => Function.update flags p true
  | release p _ => Function.update flags p false
  | otherPress _ => flags
  | otherRelease _ => flags
  | navPress _ fake => fake.elim flags fun f => Function.update flags .shift (f = .down)
  | navRelease _ fake => fake.elim flags fun f => Function.update flags .shift (f = .down)
  | pause => Function.update flags .ctrl false

theorem handleBytes_cons (s : Ps2) (sc : UInt8) (bytes : List UInt8) :
    handleBytes s (sc :: bytes) = handleBytes (ps2HandleInterrupt s (some sc)) bytes := rfl

theorem handleBytes_append (s : Ps2) (bytes bytes' : List UInt8) :
    handleBytes s (bytes ++ bytes') = handleBytes (handleBytes s bytes) bytes' :=
  List.foldl_append ..

theorem Ps2.Shows.leadIns (h : s.Shows flags) (p : Pair) (side : Side) :
    (handleBytes s (p.leadIn side)).Shows flags := by
  cases p <;> cases side <;> first | exact h | exact h.leadIn

theorem Ps2.Shows.fakeShift (h : s.Shows flags) (fake : Option FakeShift) :
    (handleBytes s (fakeBytes fake)).Shows
      (fake.elim flags fun f => Function.update flags .shift (f = .down)) := by
  cases fake with
  | none => exact h
  | some f =>
    cases f with
    | down => exact h.leadIn.down .shift .left
    | up => exact h.leadIn.up .shift .left

def numLockKey : KeyCode := ⟨0x45, by decide, fun p side => by cases p <;> cases side <;> decide⟩

/-- 0xE1 is taken for a break code of no key as well. -/
theorem Ps2.Shows.pauseIn (h : s.Shows flags) :
    (ps2HandleInterrupt s (some 0xE1)).Shows flags := by
  rw [ps2HandleInterrupt_eq h, if_neg (by decide), if_pos (by decide)]
  exact h.breakCode_of_ne fun p side => by cases p <;> cases side <;> decide

theorem Ps2.Shows.event (h : s.Shows flags) (e : KeyEvent) :
    (handleBytes s e.bytes).Shows (e.newFlags flags) := by
  cases e with
  | press p side =>
    rw [KeyEvent.bytes, handleBytes_append]
    exact (h.leadIns p side).down p side
  | release p side =>
    rw [KeyEvent.bytes, handleBytes_append]
    exact (h.leadIns p side).up p side
  | otherPress key => exact h.otherDown key
  | otherRelease key => exact h.otherUp key
  | navPress key fake =>
    rw [KeyEvent.bytes, handleBytes_append]
    exact (h.fakeShift fake).leadIn.otherDown key
  | navRelease key fake =>
    rw [KeyEvent.bytes, handleBytes_append]
    exact (h.leadIn.otherUp key).fakeShift fake
  | pause =>
    have hbytes := ((((h.pauseIn.down .ctrl .left).otherDown numLockKey).pauseIn.up .ctrl .left).otherUp
      numLockKey)
    rw [Function.update_idem] at hbytes
    exact hbytes

theorem pairDown_eq_true {down : Down} {p : Pair} :
    pairDown down p = true ↔ ∃ side, down p side = true := by
  rw [pairDown, Bool.or_eq_true]
  constructor
  · rintro (hleft | hright)
    · exact ⟨.left, hleft⟩
    · exact ⟨.right, hright⟩
  · rintro ⟨side, hside⟩
    cases side with
    | left => exact Or.inl hside
    | right => exact Or.inr hside

def Ps2Keyboard.Inv (k : Ps2Keyboard) : Prop := k.handler.Shows (pairDown k.down)

variable {k l : Ps2Keyboard} {e : KeyEvent}

theorem Ps2Keyboard.Inv.tracks_iff (h : k.Inv) :
    k.Tracks e ↔ e.newFlags (pairDown k.down) = pairDown (e.move k.down) := by
  have hflag : (k.after e).handler.flag = e.newFlags (pairDown k.down) := (Ps2.Shows.event h e).flag
  rw [Tracks, hflag, funext_iff]
  apply forall_congr'
  intro p
  rw [← pairDown_eq_true]
  exact Bool.eq_iff_iff.symm

/-- A flag is right after it was set if and only if it should be set. -/
theorem update_eq_iff {flags flags' : Pair → Bool} {p : Pair} {b : Bool}
    (h : ∀ q ≠ p, flags q = flags' q) : Function.update flags p b = flags' ↔ flags' p = b := by
  constructor
  · intro heq
    rw [← heq]
    exact Function.update_self ..
  · intro hp
    funext q
    by_cases hq : q = p
    · subst hq
      rw [Function.update_self, hp]
    · rw [Function.update_of_ne hq, h q hq]

theorem pairDown_update_self (down : Down) (p : Pair) (side : Side) (b : Bool) :
    pairDown (Function.update down p (Function.update (down p) side b)) p =
      (b || down p side.other) := by
  unfold pairDown
  rw [Function.update_self]
  cases side with
  | left => rfl
  | right => exact Bool.or_comm ..

theorem pairDown_update_of_ne (down : Down) (p : Pair) (sides : Side → Bool) :
    ∀ q ≠ p, pairDown down q = pairDown (Function.update down p sides) q := by
  intro q hq
  unfold pairDown
  rw [Function.update_of_ne hq]

theorem fake_iff (down : Down) (fake : Option FakeShift) :
    (fake.elim (pairDown down) fun f => Function.update (pairDown down) .shift (f = .down)) =
        pairDown down ↔ ∀ f ∈ fake, (pairDown down .shift = true ↔ f = .down) := by
  cases fake with
  | none => exact iff_of_true rfl fun f hf => by cases hf
  | some f =>
    rw [Option.elim_some, update_eq_iff fun _ _ => rfl, Bool.eq_iff_iff, decide_eq_true_iff]
    constructor
    · rintro heq g hg
      obtain rfl := Option.some.inj hg
      exact heq
    · exact fun hall => hall f rfl

theorem Ps2Keyboard.newFlags_iff (k : Ps2Keyboard) (e : KeyEvent) :
    e.newFlags (pairDown k.down) = pairDown (e.move k.down) ↔ k.Plain e := by
  cases e with
  | press p side =>
    rw [KeyEvent.newFlags, KeyEvent.move, update_eq_iff (pairDown_update_of_ne _ _ _),
      pairDown_update_self]
    exact iff_of_true rfl trivial
  | release p side =>
    rw [KeyEvent.newFlags, KeyEvent.move, update_eq_iff (pairDown_update_of_ne _ _ _),
      pairDown_update_self]
    exact Iff.rfl
  | otherPress => exact iff_of_true rfl trivial
  | otherRelease => exact iff_of_true rfl trivial
  | navPress _ fake => exact fake_iff k.down fake
  | navRelease _ fake => exact fake_iff k.down fake
  | pause => exact update_eq_iff fun _ _ => rfl

theorem Ps2Keyboard.Inv.step (h : k.Inv) (hplain : k.Plain e) (hstep : k.step e = some l) :
    l.Inv := by
  obtain rfl := Option.some.inj hstep
  have hshows := Ps2.Shows.event h e
  rw [(k.newFlags_iff e).mpr hplain] at hshows
  exact hshows

/-! ## Runs -/

/-- The flags follow the keys for as long as every event is plain. -/
theorem ps2_tracks_iff (nvec : Nvec) (ring : InputRing) (events : List KeyEvent) :
    Always Ps2Keyboard.step Ps2Keyboard.Tracks (.start nvec ring) events ↔
      Always Ps2Keyboard.step Ps2Keyboard.Plain (.start nvec ring) events :=
  @always_iff _ _ Ps2Keyboard.step Ps2Keyboard.Inv (fun _ _ => True) Ps2Keyboard.Tracks
    Ps2Keyboard.Plain (fun k e h _ => h.tracks_iff.trans (k.newFlags_iff e))
    (fun _ _ _ h _ hplain hstep => h.step hplain hstep) _ _
    ⟨rfl, funext fun p => by cases p <;> rfl⟩ (Always.of_forall (fun _ _ => trivial) _ _)

/-- Both Shift keys go down and the right one up. -/
theorem shift_lost :
    ¬ ∀ (nvec : Nvec) (ring : InputRing) (events : List KeyEvent),
      Always Ps2Keyboard.step Ps2Keyboard.Tracks (.start nvec ring) events := by
  intro hall
  have hthird := (((hall shellMode emptyRing
    [.press .shift .left, .press .shift .right, .release .shift .right]).2 _ rfl).2 _ rfl).1 .shift
  have hset := hthird.mpr ⟨.left, rfl⟩
  revert hset
  decide

end Rhoudveine.Input
