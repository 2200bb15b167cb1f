import Rhoudveine.Core.Backspace
import Rhoudveine.Core.Numerals

/-!
# `kprintf`

The two loops of `kprintf` in `main.c`, one for the serial port alone and one for the console, and
what they send to the serial port.
-/

namespace Rhoudveine.Core
open Fs Console

/-! ## The code -/

/-- The console, and the bytes that have been sent to the serial port. -/
structure Output where
  console : Console
  serial : Str

namespace Output

/-- `serial_putc`, with the carriage return that `serial_write` puts before a line feed. -/
def serialBytes (c : UInt8) : Str := if c = 0x0A then [0x0D, 0x0A] else [c]

def serialWrite (o : Output) (s : Str) : Output :=
  { o with serial := o.serial ++ (cString s).flatMap serialBytes }

variable (fb : Framebuffer) (gallantData : ℕ → UInt8)

def kprint (o : Output) (s : Str) (color : UInt32) : Output :=
  if o.console.nvecSuppress then o.serialWrite s
  else
    { o with console := o.console.kprintChars fb gallantData (cString s) color }.serialWrite s

/-- The conversions of the first loop; `none` where the next argument is of another type. -/
def serialConversion (o : Output) (il : Bool) (c : UInt8) (args : List Arg) :
    Option (Output × List Arg) :=
  if c = 0x73 then
    match args with
    | .str s :: args => some (o.serialWrite s, args)
    | _ => none
  else if c = 0x64 then
    match il, args with
    | true, .long n :: args => (itoa n 10).map fun b => (o.serialWrite b, args)
    | false, .int n :: args => (itoa n.toInt64 10).map fun b => (o.serialWrite b, args)
    | _, _ => none
  else if c = 0x75 then
    match il, args with
    | true, .ulong n :: args => (utoa n 10).map fun b => (o.serialWrite b, args)
    | false, .uint n :: args => (utoa n.toUInt64 10).map fun b => (o.serialWrite b, args)
    | _, _ => none
  else if c = 0x78 then
    match il, args with
    | true, .ulong n :: args =>
      (utoa n 16).map fun b => ((o.serialWrite (str "0x")).serialWrite b, args)
    | false, .uint n :: args =>
      (utoa n.toUInt64 16).map fun b => ((o.serialWrite (str "0x")).serialWrite b, args)
    | _, _ => none
  else if c = 0x25 then some (o.serialWrite (str "%"), args)
  else some (o, args)

/-- The loop for the serial port; `none` where the format ends in a conversion. -/
def kprintfSerial : (format : Str) → List Arg → Output → Option Output
  | [], _, o => some o
  | c :: format, args, o =>
    if c = 0x25 then
      match format with
      | [] => none
      | c :: format =>
        if c = 0x6C then
          match format with
          | [] => none
          | c :: format =>
            (o.serialConversion true c args).bind fun r => kprintfSerial format r.2 r.1
        else (o.serialConversion false c args).bind fun r => kprintfSerial format r.2 r.1
    else kprintfSerial format args (o.serialWrite [c])

/-- The conversions of the second loop. -/
def consoleConversion (color : UInt32) (o : Output) (il : Bool) (c : UInt8) (args : List Arg) :
    Option (Output × List Arg) :=
  if c = 0x73 then
    match args with
    | .str s :: args => some (o.kprint fb gallantData s color, args)
    | _ => none
  else if c = 0x64 then
    match il, args with
    | true, .long n :: args =>
      (itoa n 10).map fun b => (o.kprint fb gallantData b color, args)
    | false, .int n :: args =>
      (itoa n.toInt64 10).map fun b => (o.kprint fb gallantData b color, args)
    | _, _ => none
  else if c = 0x75 then
    match il, args with
    | true, .ulong n :: args =>
      (utoa n 10).map fun b => (o.kprint fb gallantData b color, args)
    | false, .uint n :: args =>
      (utoa n.toUInt64 10).map fun b => (o.kprint fb gallantData b color, args)
    | _, _ => none
  else if c = 0x78 then
    match il, args with
    | true, .ulong n :: args =>
      (utoa n 16).map fun b =>
        ((o.kprint fb gallantData (str "0x") color).kprint fb gallantData b color, args)
    | false, .uint n :: args =>
      (utoa n.toUInt64 16).map fun b =>
        ((o.kprint fb gallantData (str "0x") color).kprint fb gallantData b color, args)
    | _, _ => none
  else if c = 0x25 then some (o.kprint fb gallantData (str "%") color, args)
  else some (o, args)

/-- The loop for the console. -/
def kprintfConsole (color : UInt32) : (format : Str) → List Arg → Output → Option Output
  | [], _, o => some o
  | c :: format, args, o =>
    if c = 0x25 then
      match format with
      | [] => none
      | c :: format =>
        if c = 0x6C then
          match format with
          | [] => none
          | c :: format =>
            (o.consoleConversion fb gallantData color true c args).bind fun r =>
              kprintfConsole color format r.2 r.1
        else
          (o.consoleConversion fb gallantData color false c args).bind fun r =>
            kprintfConsole color format r.2 r.1
    else kprintfConsole color format args (o.kprint fb gallantData [c] color)

def kprintf (o : Output) (format : Str) (color : UInt32) (args : List Arg) : Option Output :=
  if o.console.nvecSuppress then kprintfSerial format args o
  else kprintfConsole fb gallantData color format args o

end Output

/-! ## Arguments -/

/-- The types in which arguments are passed. -/
inductive Kind
  | int
  | uint
  | long
  | ulong
  | str
  deriving DecidableEq

def Arg.kind : Arg → Kind
  | .int _ => .int
  | .uint _ => .uint
  | .long _ => .long
  | .ulong _ => .ulong
  | .str _ => .str

/-- The argument that a conversion takes, if it takes one. -/
def conversionKind (il : Bool) (c : UInt8) : List Kind :=
  if c = 0x73 then [.str]
  else if c = 0x64 then [if il then .long else .int]
  else if c = 0x75 ∨ c = 0x78 then [if il then .ulong else .uint]
  else []

/-- The arguments that a format takes. -/
def formatKinds : Str → List Kind
  | [] => []
  | c :: format =>
    if c = 0x25 then
      match format with
      | [] => []
      | c :: format =>
        if c = 0x6C then
          match format with
          | [] => []
          | c :: format => conversionKind true c ++ formatKinds format
        else conversionKind false c ++ formatKinds format
    else formatKinds format

namespace Output

variable {fb : Framebuffer} {gallantData : ℕ → UInt8} {color : UInt32} {o o' : Output} {il : Bool}
  {c : UInt8} {args : List Arg} {kinds : List Kind} {kind : Kind} {format : Str}

/-- Both have sent the same bytes, and the second one draws. -/
structure Twin (o o' : Output) : Prop where
  serial_eq : o'.serial = o.serial
  shown : o'.console.nvecSuppress = false

variable (fb gallantData color) in
theorem Twin.write (h : Twin o o') (s : Str) :
    Twin (o.serialWrite s) (o'.kprint fb gallantData s color) := by
  rw [kprint, if_neg (by simp [h.shown])]
  constructor
  · rw [serialWrite, serialWrite, h.serial_eq]
  · exact (nvecSuppress_kprintChars _).trans h.shown

/-- The next argument is of the type that the conversion takes. -/
theorem next_argument (h : [kind] ++ kinds <+: args.map Arg.kind) :
    ∃ a rest, args = a :: rest ∧ a.kind = kind ∧ kinds <+: rest.map Arg.kind := by
  cases args with
  | nil => simp at h
  | cons a rest =>
    obtain ⟨hkind, hrest⟩ := List.cons_prefix_cons.mp h
    exact ⟨a, rest, rfl, hkind.symm, hrest⟩

theorem utoa_sixteen (n : UInt64) : ∃ b, utoa n 16 = some b := by
  unfold utoa
  split_ifs
  · exact ⟨_, rfl⟩
  · have hlt : n.toNat < (16 : UInt64).toNat ^ 64 := n.toNat_lt.trans (by decide)
    obtain ⟨s, hs⟩ := exists_digitsLoop 16 (by norm_num) hlt
    exact ⟨_, congrArg (Option.map reverse) hs⟩

variable (fb gallantData color) in
/-- Both conversions take the same argument and send the same bytes. -/
theorem Twin.conversion (h : Twin o o')
    (hargs : conversionKind il c ++ kinds <+: args.map Arg.kind) :
    ∃ p p' rest, o.serialConversion il c args = some (p, rest) ∧
      o'.consoleConversion fb gallantData color il c args = some (p', rest) ∧ Twin p p' ∧
        kinds <+: rest.map Arg.kind := by
  unfold serialConversion consoleConversion
  unfold conversionKind at hargs
  -- `%s`
  by_cases hs : c = 0x73
  · rw [if_pos hs] at hargs
    obtain ⟨a, rest, rfl, ha, hrest⟩ := next_argument hargs
    rw [if_pos hs, if_pos hs]
    cases a with
    | str s => exact ⟨_, _, rest, rfl, rfl, h.write fb gallantData color s, hrest⟩
    | _ => cases ha
  rw [if_neg hs] at hargs ⊢
  rw [if_neg hs]
  -- `%d`, with or without `l`
  by_cases hd : c = 0x64
  · rw [if_pos hd] at hargs
    obtain ⟨a, rest, rfl, ha, hrest⟩ := next_argument hargs
    rw [if_pos hd, if_pos hd]
    cases il with
    | true =>
      cases a with
      | long n =>
        exact ⟨_, _, rest, congrArg (Option.map _) (itoa_ten n),
          congrArg (Option.map _) (itoa_ten n), h.write fb gallantData color _, hrest⟩
      | _ => cases ha
    | false =>
      cases a with
      | int n =>
        exact ⟨_, _, rest, congrArg (Option.map _) (itoa_ten n.toInt64),
          congrArg (Option.map _) (itoa_ten n.toInt64), h.write fb gallantData color _, hrest⟩
      | _ => cases ha
  rw [if_neg hd] at hargs ⊢
  rw [if_neg hd]
  -- `%u`
  by_cases hu : c = 0x75
  · rw [if_pos (.inl hu)] at hargs
    obtain ⟨a, rest, rfl, ha, hrest⟩ := next_argument hargs
    rw [if_pos hu, if_pos hu]
    cases il with
    | true =>
      cases a with
      | ulong n =>
        exact ⟨_, _, rest, congrArg (Option.map _) (utoa_ten n),
          congrArg (Option.map _) (utoa_ten n), h.write fb gallantData color _, hrest⟩
      | _ => cases ha
    | false =>
      cases a with
      | uint n =>
        exact ⟨_, _, rest, congrArg (Option.map _) (utoa_ten n.toUInt64),
          congrArg (Option.map _) (utoa_ten n.toUInt64), h.write fb gallantData color _, hrest⟩
      | _ => cases ha
  rw [if_neg hu, if_neg hu]
  -- `%x`: the digits are written after the mark in front of them
  by_cases hx : c = 0x78
  · rw [if_pos (.inr hx)] at hargs
    obtain ⟨a, rest, rfl, ha, hrest⟩ := next_argument hargs
    rw [if_pos hx, if_pos hx]
    cases il with
    | true =>
      cases a with
      | ulong n =>
        obtain ⟨b, hb⟩ := utoa_sixteen n
        exact ⟨_, _, rest, congrArg (Option.map _) hb, congrArg (Option.map _) hb,
          (h.write fb gallantData color _).write fb gallantData color b, hrest⟩
      | _ => cases ha
    | false =>
      cases a with
      | uint n =>
        obtain ⟨b, hb⟩ := utoa_sixteen n.toUInt64
        exact ⟨_, _, rest, congrArg (Option.map _) hb, congrArg (Option.map _) hb,
          (h.write fb gallantData color _).write fb gallantData color b, hrest⟩
      | _ => cases ha
  -- what is left takes no argument
  rw [if_neg (by simp [hu, hx]), List.nil_append] at hargs
  rw [if_neg hx, if_neg hx]
  by_cases hpercent : c = 0x25
  · rw [if_pos hpercent, if_pos hpercent]
    exact ⟨_, _, args, rfl, rfl, h.write fb gallantData color _, hargs⟩
  · rw [if_neg hpercent, if_neg hpercent]
    exact ⟨o, o', args, rfl, rfl, h, hargs⟩

/-! ## The loops -/

theorem kprintfSerial_conversion (hc : c ≠ 0x6C) :
    kprintfSerial (0x25 :: c :: format) args o =
      (o.serialConversion false c args).bind fun r => kprintfSerial format r.2 r.1 := by
  rw [kprintfSerial.eq_def]
  exact (if_pos rfl).trans (if_neg hc)

theorem kprintfSerial_char (hc : c ≠ 0x25) :
    kprintfSerial (c :: format) args o = kprintfSerial format args (o.serialWrite [c]) := by
  rw [kprintfSerial.eq_def]
  exact if_neg hc

theorem kprintfConsole_conversion (hc : c ≠ 0x6C) :
    kprintfConsole fb gallantData color (0x25 :: c :: format) args o =
      (o.consoleConversion fb gallantData color false c args).bind fun r =>
        kprintfConsole fb gallantData color format r.2 r.1 := by
  rw [kprintfConsole.eq_def]
  exact (if_pos rfl).trans (if_neg hc)

theorem kprintfConsole_char (hc : c ≠ 0x25) :
    kprintfConsole fb gallantData color (c :: format) args o =
      kprintfConsole fb gallantData color format args (o.kprint fb gallantData [c] color) := by
  rw [kprintfConsole.eq_def]
  exact if_neg hc

variable (fb gallantData color) in
/-- Both loops come to the end and have sent the same bytes. -/
theorem Twin.loop (h : Twin o o') (hend : ¬ str "%" <:+ format) (hlong : ¬ str "%l" <:+ format)
    (hargs : formatKinds format <+: args.map Arg.kind) :
    ∃ p p', kprintfSerial format args o = some p ∧
      kprintfConsole fb gallantData color format args o' = some p' ∧ Twin p p' := by
  induction format using formatKinds.induct generalizing args o o' with
  | case1 => exact ⟨o, o', rfl, rfl, h⟩
  | case2 => exact absurd (List.suffix_refl _) hend
  | case3 => exact absurd (List.suffix_refl _) hlong
  | case4 c format ih =>
    have hsuffix : format <:+ 0x25 :: 0x6C :: c :: format := ⟨[0x25, 0x6C, c], rfl⟩
    change conversionKind true c ++ formatKinds format <+: _ at hargs
    obtain ⟨p, p', rest, hserial, hconsole, htwin, hrest⟩ :=
      h.conversion fb gallantData color hargs
    obtain ⟨q, q', hq, hq', htwin'⟩ := ih htwin (fun h => hend (h.trans hsuffix))
      (fun h => hlong (h.trans hsuffix)) hrest
    refine ⟨q, q', ?_, ?_, htwin'⟩
    · change (o.serialConversion true c args).bind _ = _
      rw [hserial]
      exact hq
    · change (o'.consoleConversion fb gallantData color true c args).bind _ = _
      rw [hconsole]
      exact hq'
  | case5 c format hc ih =>
    have hsuffix : format <:+ 0x25 :: c :: format := ⟨[0x25, c], rfl⟩
    have hkinds : formatKinds (0x25 :: c :: format) =
        conversionKind false c ++ formatKinds format := by
      rw [formatKinds.eq_def]
      exact (if_pos rfl).trans (if_neg hc)
    rw [hkinds] at hargs
    obtain ⟨p, p', rest, hserial, hconsole, htwin, hrest⟩ :=
      h.conversion fb gallantData color hargs
    obtain ⟨q, q', hq, hq', htwin'⟩ := ih htwin (fun h => hend (h.trans hsuffix))
      (fun h => hlong (h.trans hsuffix)) hrest
    rw [kprintfSerial_conversion hc, kprintfConsole_conversion hc, hserial, hconsole]
    exact ⟨q, q', hq, hq', htwin'⟩
  | case6 c format hc ih =>
    have hsuffix : format <:+ c :: format := List.suffix_cons c format
    have hkinds : formatKinds (c :: format) = formatKinds format := by
      rw [formatKinds.eq_def]
      exact if_neg hc
    rw [kprintfSerial_char hc, kprintfConsole_char hc]
    exact ih (h.write fb gallantData color [c]) (fun h => hend (h.trans hsuffix))
      (fun h => hlong (h.trans hsuffix)) (hkinds ▸ hargs)

end Output

/-- What `kprintf` sends to the serial port does not depend on the console. -/
theorem kprintf_serial_eq (fb : Framebuffer) (gallantData : ℕ → UInt8) {format : Str}
    {args : List Arg} (hend : ¬ str "%" <:+ format) (hlong : ¬ str "%l" <:+ format)
    (hargs : formatKinds format <+: args.map Arg.kind) (color : UInt32) (serial : Str)
    {s s' : Console} (hs : s.nvecSuppress = true) (hs' : s'.nvecSuppress = false) :
    ∃ bytes, (Output.kprintf fb gallantData ⟨s, serial⟩ format color args).map Output.serial =
        some bytes ∧
      (Output.kprintf fb gallantData ⟨s', serial⟩ format color args).map Output.serial =
        some bytes := by
  have htwin : Output.Twin ⟨s, serial⟩ ⟨s', serial⟩ := ⟨rfl, hs'⟩
  obtain ⟨p, p', hp, hp', hsame⟩ := htwin.loop fb gallantData color hend hlong hargs
  refine ⟨p.serial, ?_, ?_⟩
  · rw [Output.kprintf, if_pos hs, hp]
    rfl
  · rw [Output.kprintf, if_neg (by simp [hs']), hp', Option.map_some, hsame.serial_eq]

/-- A line with a number in it. -/
theorem kprintf_serial_eq_line : ∃ bytes,
    (Output.kprintf twoLines (fun _ => 0xFF)
        ⟨{ Console.start fun _ _ => 0 with nvecSuppress := true }, []⟩ (str "n=%d!") 0
        [.int 5]).map Output.serial = some bytes ∧
      (Output.kprintf twoLines (fun _ => 0xFF) ⟨Console.start fun _ _ => 0, []⟩ (str "n=%d!") 0
        [.int 5]).map Output.serial = some bytes :=
  kprintf_serial_eq twoLines (fun _ => 0xFF) (by decide) (by decide) (by decide) 0 [] rfl rfl

end Rhoudveine.Core
