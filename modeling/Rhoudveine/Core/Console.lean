import Rhoudveine.Lib.Run

/-!
# The console on the framebuffer

`kprint`, `fb_putc`, `fb_backspace` and the text cursor of `main.c`.  A pixel is named by its
column and its row, and `pixels` are those of the buffer that is drawn into.  What goes to the
serial port and the copy of the back buffer to the screen are left out.
-/

namespace Rhoudveine.Core

/-! ## The framebuffer -/

/-- The code takes the width and the height for an `int`. -/
structure Framebuffer where
  width : UInt32
  height : UInt32
  width_ge : 36 ≤ width.toNat
  height_ge : 22 ≤ height.toNat
  width_lt : width.toNat < 2 ^ 31
  height_lt : height.toNat < 2 ^ 31

abbrev Pixels := UInt32 → UInt32 → UInt32

def setPixel (pixels : Pixels) (x y color : UInt32) : Pixels :=
  Function.update pixels x (Function.update (pixels x) y color)

def fontWidth : UInt32 := 12
def fontHeight : UInt32 := 22
def fontFirstChar : UInt8 := 32
def fbBgColor : UInt32 := 0xFF000000

variable (fb : Framebuffer) (gallantData : ℕ → UInt8)

/-- What `put_pixel` does not draw. -/
def Clipped (x y : UInt32) : Prop := x.toInt32 ≥ fb.width.toInt32 ∨ y.toInt32 ≥ fb.height.toInt32

instance (x y : UInt32) : Decidable (Clipped fb x y) := inferInstanceAs (Decidable (_ ∨ _))

def putPixel (pixels : Pixels) (x y color : UInt32) : Pixels :=
  if Clipped fb x y then pixels else setPixel pixels x y color

/-- The columns and rows of a cell, row by row. -/
def cellOffsets : List (UInt32 × UInt32) :=
  (List.range 22).flatMap fun row =>
    (List.range 12).map fun col => (UInt32.ofNat col, UInt32.ofNat row)

/-- One pixel of a glyph: the rows of the font are 16 bits wide, the leftmost column first. -/
def glyphBit (c : UInt8) (offset : UInt32 × UInt32) : Bool :=
  let index := (c.toNat - 32) * 22 * 2
  let byte1 := gallantData (index + offset.2.toNat * 2)
  let byte2 := gallantData (index + offset.2.toNat * 2 + 1)
  (byte1.toNat * 256 + byte2.toNat).testBit (15 - offset.1.toNat)

def drawChar (pixels : Pixels) (c : UInt8) (x y color : UInt32) : Pixels :=
  if c < fontFirstChar then pixels
  else
    cellOffsets.foldl
      (fun pixels o =>
        if glyphBit gallantData c o then putPixel fb pixels (x + o.1) (y + o.2) color else pixels)
      pixels

/-- The lines move up, and the last one is cleared. -/
def scroll (pixels : Pixels) : Pixels := fun x y =>
  if y < fb.height - fontHeight then pixels x (y + fontHeight)
  else if y < fb.height then fbBgColor
  else pixels x y

/-! ## The console -/

structure Console where
  cursorX : UInt32
  cursorY : UInt32
  suppressFb : Bool
  /-- What `nvec_suppress_console` returns. -/
  nvecSuppress : Bool
  pixels : Pixels
  cursorSaved : List UInt32
  cursorSavedValid : Bool
  cursorVisible : Bool

namespace Console

/-- The pixels of the cell at the cursor. -/
def cell (s : Console) : List (UInt32 × UInt32) :=
  cellOffsets.map fun o => (s.cursorX + o.1, s.cursorY + o.2)

def newline (s : Console) : Console :=
  let y := s.cursorY + fontHeight
  if y ≥ fb.height then
    { s with cursorX := 0, cursorY := fb.height - fontHeight, pixels := scroll fb s.pixels }
  else { s with cursorX := 0, cursorY := y }

def advance (s : Console) : Console :=
  let x := s.cursorX + fontWidth
  -- unlike in `newline`, the height is not looked at
  if x ≥ fb.width - fontWidth then { s with cursorX := 0, cursorY := s.cursorY + fontHeight }
  else { s with cursorX := x }

/-- One character of the loop of `kprint`. -/
def kprintChar (s : Console) (c : UInt8) (color : UInt32) : Console :=
  if s.suppressFb then s
  else if c = 0x0A then s.newline fb
  else
    { s with pixels := drawChar fb gallantData s.pixels c s.cursorX s.cursorY color }.advance fb

/-- A C string ends at its first NUL. -/
def cString (str : List UInt8) : List UInt8 := str.takeWhile (· ≠ 0)

def kprintChars (s : Console) (str : List UInt8) (color : UInt32) : Console :=
  str.foldl (fun s c => s.kprintChar fb gallantData c color) s

def kprint (s : Console) (str : List UInt8) (color : UInt32) : Console :=
  if s.nvecSuppress then s else s.kprintChars fb gallantData (cString str) color

def fbPutc (s : Console) (c : UInt8) : Console :=
  if s.nvecSuppress then s
  else
    { { s with suppressFb := false }.kprint fb gallantData [c] 0xFFFFFFFF with
      suppressFb := s.suppressFb }

def eraseCell (s : Console) : Console :=
  { s with pixels := s.cell.foldl (fun px p => putPixel fb px p.1 p.2 fbBgColor) s.pixels }

def fbBackspace (s : Console) : Console :=
  if s.nvecSuppress then s
  else if s.cursorX ≥ fontWidth then { s with cursorX := s.cursorX - fontWidth }.eraseCell fb
  else if s.cursorY ≥ fontHeight then
    { s with cursorY := s.cursorY - fontHeight, cursorX := fb.width - fontWidth }.eraseCell fb
  else { s with cursorX := 0 }

def invert (color : UInt32) : UInt32 := (~~~color &&& 0x00FFFFFF) ||| (color &&& 0xFF000000)

/-- `fb_cursor_show`: the pixels are read and written wherever they are. -/
def fbCursorShow (s : Console) : Console :=
  if s.suppressFb ∨ s.nvecSuppress then s
  else if s.cursorVisible then s
  else
    { s with
      pixels := s.cell.foldl (fun px p => setPixel px p.1 p.2 (invert (px p.1 p.2))) s.pixels
      cursorSaved := s.cell.map fun p => s.pixels p.1 p.2
      cursorSavedValid := true
      cursorVisible := true }

def fbCursorHide (s : Console) : Console :=
  if s.suppressFb ∨ s.nvecSuppress then s
  else if ¬ s.cursorVisible ∨ ¬ s.cursorSavedValid then s
  else
    { s with
      pixels := (s.cell.zip s.cursorSaved).foldl (fun px q => setPixel px q.1.1 q.1.2 q.2) s.pixels
      cursorVisible := false }

end Console

/-! ## Runs -/

inductive ConsoleCall
  | kprint (str : List UInt8) (color : UInt32)
  | fbPutc (c : UInt8)
  | fbBackspace
  | fbCursorShow
  | fbCursorHide

/-- The characters a call prints. -/
def ConsoleCall.text : ConsoleCall → List UInt8
  | kprint str _ => Console.cString str
  | fbPutc c => Console.cString [c]
  | _ => []

def ConsoleCall.color : ConsoleCall → UInt32
  | kprint _ color => color
  | _ => 0xFFFFFFFF

namespace Console

def apply (s : Console) : ConsoleCall → Console
  | .kprint str color => s.kprint fb gallantData str color
  | .fbPutc c => s.fbPutc fb gallantData c
  | .fbBackspace => s.fbBackspace fb
  | .fbCursorShow => s.fbCursorShow
  | .fbCursorHide => s.fbCursorHide

def step (s : Console) (call : ConsoleCall) : Option Console := some (s.apply fb gallantData call)

/-- Output is enabled, and the cursor is in the corner of whatever the screen shows. -/
def start (pixels : Pixels) : Console := ⟨0, 0, false, false, pixels, [], false, false⟩

/-- The state in which the last of some characters of a call is printed. -/
def before (s : Console) (call : ConsoleCall) (chars : List UInt8) : Console :=
  s.kprintChars fb gallantData chars call.color

/-- The cell at the cursor is on the screen, all of it is drawn, and the cursor can be shown and
hidden there. -/
structure Shown (s : Console) : Prop where
  column : s.cursorX.toNat + 12 ≤ fb.width.toNat
  row : s.cursorY.toNat + 22 ≤ fb.height.toNat
  drawn : ∀ p ∈ s.cell, ¬ Clipped fb p.1 p.2
  inside : ∀ p ∈ s.cell, p.1 < fb.width ∧ p.2 < fb.height

/-- The cell at the cursor is on the screen whenever a glyph is drawn, and after the call. -/
structure Shows (s : Console) (call : ConsoleCall) : Prop where
  glyph : ∀ chars c, chars ++ [c] <+: call.text → fontFirstChar ≤ c →
    (s.before fb gallantData call chars).Shown fb
  after : (s.apply fb gallantData call).Shown fb

/-- There is a whole line below that of the cursor, or the character does not move there: it is a
newline at the very bottom, where the screen scrolls, or does not end its line. -/
def HasRoom (s : Console) (c : UInt8) : Prop :=
  if c = 0x0A then s.cursorY.toNat + 44 ≤ fb.height.toNat ∨ fb.height.toNat ≤ s.cursorY.toNat + 22
  else s.cursorX.toNat + 24 < fb.width.toNat ∨ s.cursorY.toNat + 44 ≤ fb.height.toNat

instance (s : Console) (c : UInt8) : Decidable (s.HasRoom fb c) :=
  inferInstanceAs (Decidable (if c = 0x0A then _ ∨ _ else _ ∨ _))

/-- There is room behind each character of the call. -/
def Fits (s : Console) (call : ConsoleCall) : Prop :=
  ∀ chars c, chars ++ [c] <+: call.text → (s.before fb gallantData call chars).HasRoom fb c

/-! ## The cursor -/

/-- Output is enabled, and the cell at the cursor is on the screen. -/
structure Ready (s : Console) : Prop where
  suppressFb : s.suppressFb = false
  nvecSuppress : s.nvecSuppress = false
  column : s.cursorX.toNat + 12 ≤ fb.width.toNat
  row : s.cursorY.toNat + 22 ≤ fb.height.toNat

variable {fb gallantData} {s t : Console} {c : UInt8} {color : UInt32} {call : ConsoleCall}

theorem Ready.draws (h : s.Ready fb) : ¬ s.suppressFb = true := by
  rw [h.suppressFb]
  exact Bool.false_ne_true

theorem Ready.prints (h : s.Ready fb) : ¬ s.nvecSuppress = true := by
  rw [h.nvecSuppress]
  exact Bool.false_ne_true

theorem toNat_add_fontWidth (h : s.cursorX.toNat + 12 ≤ fb.width.toNat) :
    (s.cursorX + fontWidth).toNat = s.cursorX.toNat + 12 := by
  have hlt := fb.width_lt
  have hfont : fontWidth.toNat = 12 := rfl
  rw [UInt32.toNat_add, hfont, Nat.mod_eq_of_lt (by omega)]

theorem toNat_add_fontHeight (h : s.cursorY.toNat + 22 ≤ fb.height.toNat) :
    (s.cursorY + fontHeight).toNat = s.cursorY.toNat + 22 := by
  have hlt := fb.height_lt
  have hfont : fontHeight.toNat = 22 := rfl
  rw [UInt32.toNat_add, hfont, Nat.mod_eq_of_lt (by omega)]

theorem toNat_width_sub (fb : Framebuffer) :
    (fb.width - fontWidth).toNat = fb.width.toNat - 12 := by
  have hge := fb.width_ge
  have hle : fontWidth ≤ fb.width := UInt32.le_iff_toNat_le.mpr (show 12 ≤ fb.width.toNat by omega)
  exact UInt32.toNat_sub_of_le _ _ hle

theorem toNat_height_sub (fb : Framebuffer) :
    (fb.height - fontHeight).toNat = fb.height.toNat - 22 := by
  have hle : fontHeight ≤ fb.height := UInt32.le_iff_toNat_le.mpr fb.height_ge
  exact UInt32.toNat_sub_of_le _ _ hle

theorem zero_column (fb : Framebuffer) : (0 : UInt32).toNat + 12 ≤ fb.width.toNat :=
  Nat.le_trans (by decide) fb.width_ge

theorem Ready.newline_iff (h : s.Ready fb) : (s.newline fb).Ready fb ↔ s.HasRoom fb 0x0A := by
  have hrow := toNat_add_fontHeight h.row
  have hbottom := toNat_height_sub fb
  have hheight := fb.height_ge
  have hwidth := fb.width_ge
  unfold HasRoom newline
  dsimp only
  rw [if_pos rfl]
  by_cases hscroll : s.cursorY + fontHeight ≥ fb.height
  · rw [if_pos hscroll]
    rw [ge_iff_le, UInt32.le_iff_toNat_le, hrow] at hscroll
    refine iff_of_true ⟨h.suppressFb, h.nvecSuppress, zero_column fb, ?_⟩ (Or.inr hscroll)
    dsimp only
    omega
  · rw [if_neg hscroll]
    rw [ge_iff_le, UInt32.le_iff_toNat_le, hrow] at hscroll
    constructor
    · intro hready
      have hbelow : (s.cursorY + fontHeight).toNat + 22 ≤ fb.height.toNat := hready.row
      omega
    · intro hroom
      refine ⟨h.suppressFb, h.nvecSuppress, zero_column fb, ?_⟩
      dsimp only
      omega

theorem Ready.advance_iff (h : s.Ready fb) (hc : c ≠ 0x0A) :
    (s.advance fb).Ready fb ↔ s.HasRoom fb c := by
  have hrow := toNat_add_fontHeight h.row
  have hcolumn := toNat_add_fontWidth h.column
  have hedge := toNat_width_sub fb
  have hwidth := fb.width_ge
  unfold HasRoom advance
  dsimp only
  rw [if_neg hc]
  by_cases hwrap : s.cursorX + fontWidth ≥ fb.width - fontWidth
  · rw [if_pos hwrap]
    rw [ge_iff_le, UInt32.le_iff_toNat_le, hcolumn, hedge] at hwrap
    constructor
    · intro hready
      have hbelow : (s.cursorY + fontHeight).toNat + 22 ≤ fb.height.toNat := hready.row
      omega
    · intro hroom
      refine ⟨h.suppressFb, h.nvecSuppress, zero_column fb, ?_⟩
      dsimp only
      omega
  · rw [if_neg hwrap]
    rw [ge_iff_le, UInt32.le_iff_toNat_le, hcolumn, hedge] at hwrap
    refine iff_of_true ⟨h.suppressFb, h.nvecSuppress, ?_, h.row⟩ (Or.inl (by omega))
    dsimp only
    omega

/-- A character leaves the cursor on the screen exactly when there is room. -/
theorem Ready.kprintChar_iff (h : s.Ready fb) :
    (s.kprintChar fb gallantData c color).Ready fb ↔ s.HasRoom fb c := by
  unfold kprintChar
  rw [if_neg h.draws]
  by_cases hc : c = 0x0A
  · subst hc
    exact h.newline_iff
  · rw [if_neg hc]
    exact Ready.advance_iff (s := { s with pixels := _ })
      ⟨h.suppressFb, h.nvecSuppress, h.column, h.row⟩ hc

theorem Ready.fbBackspace (h : s.Ready fb) : (s.fbBackspace fb).Ready fb := by
  have hedge := toNat_width_sub fb
  have hwidth := fb.width_ge
  have hcolumn := h.column
  have hrow := h.row
  unfold Console.fbBackspace
  rw [if_neg h.prints]
  by_cases hx : s.cursorX ≥ fontWidth
  · rw [if_pos hx]
    have hsub : (s.cursorX - fontWidth).toNat = s.cursorX.toNat - 12 :=
      UInt32.toNat_sub_of_le _ _ hx
    refine ⟨h.suppressFb, h.nvecSuppress, ?_, hrow⟩
    change (s.cursorX - fontWidth).toNat + 12 ≤ _
    omega
  · rw [if_neg hx]
    by_cases hy : s.cursorY ≥ fontHeight
    · rw [if_pos hy]
      have hsub : (s.cursorY - fontHeight).toNat = s.cursorY.toNat - 22 :=
        UInt32.toNat_sub_of_le _ _ hy
      refine ⟨h.suppressFb, h.nvecSuppress, ?_, ?_⟩
      · change (fb.width - fontWidth).toNat + 12 ≤ _
        omega
      · change (s.cursorY - fontHeight).toNat + 22 ≤ _
        omega
    · rw [if_neg hy]
      exact ⟨h.suppressFb, h.nvecSuppress, zero_column fb, hrow⟩

theorem Ready.fbCursorShow (h : s.Ready fb) : s.fbCursorShow.Ready fb := by
  unfold Console.fbCursorShow
  split_ifs <;> exact ⟨h.suppressFb, h.nvecSuppress, h.column, h.row⟩

theorem Ready.fbCursorHide (h : s.Ready fb) : s.fbCursorHide.Ready fb := by
  unfold Console.fbCursorHide
  split_ifs <;> exact ⟨h.suppressFb, h.nvecSuppress, h.column, h.row⟩

/-! ## The cell at the cursor -/

theorem cellOffsets_lt {o : UInt32 × UInt32} (h : o ∈ cellOffsets) :
    o.1.toNat < 12 ∧ o.2.toNat < 22 := by
  obtain ⟨row, hrow, hmem⟩ := List.mem_flatMap.mp h
  obtain ⟨col, hcol, rfl⟩ := List.mem_map.mp hmem
  have hrow' := List.mem_range.mp hrow
  have hcol' := List.mem_range.mp hcol
  constructor
  · rw [UInt32.toNat_ofNat']
    omega
  · rw [UInt32.toNat_ofNat']
    omega

theorem not_toInt32_ge {x y : UInt32} (h : x < y) (hy : y.toNat < 2 ^ 31) :
    ¬ x.toInt32 ≥ y.toInt32 := by
  rw [UInt32.lt_iff_toNat_lt] at h
  have hint : ∀ z : UInt32, z.toNat < 2 ^ 31 → z.toInt32.toInt = z.toNat := by
    intro z hz
    exact BitVec.toInt_eq_toNat_of_lt (show 2 * z.toNat < 2 ^ 32 by omega)
  rw [ge_iff_le, Int32.le_iff_toInt_le, hint x (by omega), hint y hy]
  omega

theorem Ready.shown (h : s.Ready fb) : s.Shown fb := by
  have hinside : ∀ p ∈ s.cell, p.1 < fb.width ∧ p.2 < fb.height := by
    intro p hp
    obtain ⟨o, ho, rfl⟩ := List.mem_map.mp hp
    obtain ⟨hcol, hrow⟩ := cellOffsets_lt ho
    have hcolumn := h.column
    have hline := h.row
    have hwidth := fb.width_lt
    have hheight := fb.height_lt
    rw [UInt32.lt_iff_toNat_lt, UInt32.lt_iff_toNat_lt, UInt32.toNat_add, UInt32.toNat_add]
    omega
  refine ⟨h.column, h.row, ?_, hinside⟩
  intro p hp hclipped
  obtain ⟨hx, hy⟩ := hinside p hp
  rcases hclipped with hcol | hrow
  · exact not_toInt32_ge hx fb.width_lt hcol
  · exact not_toInt32_ge hy fb.height_lt hrow

/-! ## One call -/

theorem kprintChars_append (s : Console) (chars chars' : List UInt8) (color : UInt32) :
    s.kprintChars fb gallantData (chars ++ chars') color =
      (s.kprintChars fb gallantData chars color).kprintChars fb gallantData chars' color :=
  List.foldl_append ..

/-- The cursor stays on the screen for as long as there is room behind every character. -/
theorem Ready.before (h : s.Ready fb) (hfits : s.Fits fb gallantData call) {chars : List UInt8}
    (hchars : chars <+: call.text) : (s.before fb gallantData call chars).Ready fb := by
  induction chars using List.reverseRecOn with
  | nil => exact h
  | append_singleton chars c ih =>
    have hready := ih ((List.prefix_append chars [c]).trans hchars)
    unfold Console.before at hready ⊢
    rw [kprintChars_append]
    exact hready.kprintChar_iff.mpr (hfits chars c hchars)

theorem Ready.kprint (h : s.Ready fb) (str : List UInt8) (color : UInt32) :
    s.kprint fb gallantData str color = s.kprintChars fb gallantData (cString str) color := by
  exact if_neg h.prints

theorem Ready.fbPutc (h : s.Ready fb) (hfits : s.Fits fb gallantData (.fbPutc c)) :
    (s.fbPutc fb gallantData c).Ready fb := by
  have hsame : { s with suppressFb := false } = s := by
    rw [← h.suppressFb]
  have hprint := h.before hfits (List.prefix_refl _)
  unfold Console.fbPutc
  rw [if_neg h.prints, hsame, h.kprint, h.suppressFb]
  exact ⟨rfl, hprint.nvecSuppress, hprint.column, hprint.row⟩

theorem Ready.apply (h : s.Ready fb) (hfits : s.Fits fb gallantData call) :
    (s.apply fb gallantData call).Ready fb := by
  cases call with
  | kprint str color =>
    have hprint := h.before hfits (List.prefix_refl _)
    change (s.kprint fb gallantData str color).Ready fb
    rw [h.kprint]
    exact hprint
  | fbPutc c => exact h.fbPutc hfits
  | fbBackspace => exact h.fbBackspace
  | fbCursorShow => exact h.fbCursorShow
  | fbCursorHide => exact h.fbCursorHide

/-- A call that prints one character. -/
theorem HasRoom.fits (h : s.HasRoom fb c) : s.Fits fb gallantData (.fbPutc c) := by
  intro chars d hd
  have hone : chars ++ [d] <+: [c] := hd.trans (List.takeWhile_prefix _)
  obtain ⟨rest, hrest⟩ := hone
  cases chars with
  | nil =>
    obtain ⟨rfl, -⟩ := List.cons.inj hrest
    exact h
  | cons e chars =>
    have hlen := congrArg List.length hrest
    simp at hlen

theorem Ready.shows (h : s.Ready fb) (hfits : s.Fits fb gallantData call) :
    s.Shows fb gallantData call := by
  refine ⟨?_, (h.apply hfits).shown⟩
  intro chars c hchars _
  exact (h.before hfits ((List.prefix_append chars [c]).trans hchars)).shown

/-! ## Runs -/

theorem Ready.start (fb : Framebuffer) (pixels : Pixels) : (Console.start pixels).Ready fb := by
  have hzero : (0 : UInt32).toNat + 22 ≤ 22 := by decide
  exact ⟨rfl, rfl, zero_column fb, hzero.trans fb.height_ge⟩

theorem Ready.always (h : s.Ready fb) {calls : List ConsoleCall}
    (hfits : Always (Console.step fb gallantData) (Console.Fits fb gallantData) s calls) :
    Always (Console.step fb gallantData) (Console.Shows fb gallantData) s calls := by
  induction calls generalizing s with
  | nil => trivial
  | cons call calls ih =>
    refine ⟨h.shows hfits.1, ?_⟩
    intro t ht
    obtain rfl := Option.some.inj ht
    exact ih (h.apply hfits.1) (hfits.2 _ ht)

end Console

open Console

/-- In a run in which there is room behind every character, every glyph is drawn on the screen, and
the cursor is on the screen after every call. -/
theorem console_shows (fb : Framebuffer) (gallantData : ℕ → UInt8) (pixels : Pixels)
    {calls : List ConsoleCall}
    (hfits : Always (Console.step fb gallantData) (Console.Fits fb gallantData) (.start pixels)
      calls) :
    Always (Console.step fb gallantData) (Console.Shows fb gallantData) (.start pixels) calls :=
  (Ready.start fb pixels).always hfits

def twoLines : Framebuffer := ⟨36, 44, by decide, by decide, by decide, by decide⟩

def oneLine : Framebuffer := ⟨36, 22, by decide, by decide, by decide, by decide⟩

/-- A letter on each of two lines. -/
theorem console_shows_letters :
    Always (Console.step twoLines fun _ => 0xFF) (Console.Shows twoLines fun _ => 0xFF)
      (.start fun _ _ => 0) [.fbPutc 0x41, .fbPutc 0x0A, .fbPutc 0x41] := by
  apply console_shows
  refine .cons rfl (HasRoom.fits (by decide)) (.cons rfl (HasRoom.fits (by decide)) ?_)
  exact .cons rfl (HasRoom.fits (by decide)) trivial

/-- The second letter ends the only line of a small screen. -/
theorem wrap_leaves_screen :
    ¬ ∀ (fb : Framebuffer) (gallantData : ℕ → UInt8) (pixels : Pixels)
        (calls : List ConsoleCall),
      Always (Console.step fb gallantData) (Console.Shows fb gallantData) (.start pixels)
        calls := by
  intro hall
  have hrow := (hall oneLine (fun _ => 0xFF) (fun _ _ => 0) [.kprint [0x41, 0x41] 0xFFFFFFFF]).1.after.row
  revert hrow
  decide

end Rhoudveine.Core
