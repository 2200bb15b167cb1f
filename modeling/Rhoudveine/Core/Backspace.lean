import Rhoudveine.Core.Console

/-!
# A character and a backspace

When `fb_backspace` takes back a character that `fb_putc` has just printed.
-/

namespace Rhoudveine.Core
namespace Console

variable (fb : Framebuffer) (gallantData : ℕ → UInt8)

/-- The console after some calls. -/
def after (s : Console) (calls : List ConsoleCall) : Console :=
  calls.foldl (fun s call => s.apply fb gallantData call) s

/-- A backspace takes the character back: the cursor is where it was, and what the screen shows of
its cell is blank and nothing else is touched. -/
structure Undoes (s t : Console) : Prop where
  cursorX : t.cursorX = s.cursorX
  cursorY : t.cursorY = s.cursorY
  blank : ∀ x y, (x, y) ∈ s.cell → ¬ Clipped fb x y → t.pixels x y = fbBgColor
  rest : ∀ x y, (x, y) ∉ s.cell ∨ Clipped fb x y → t.pixels x y = s.pixels x y

/-- The character does not end its line, or it is in the cell in which a backspace comes back to
the line. -/
def ComesBack (s : Console) : Prop :=
  s.cursorX.toNat + 24 < fb.width.toNat ∨
    s.cursorX.toNat + 12 = fb.width.toNat ∧ s.cursorY.toNat + 22 < 2 ^ 32

instance (s : Console) : Decidable (s.ComesBack fb) := inferInstanceAs (Decidable (_ ∨ _))

/-! ## The column -/

/-- Every call leaves room for a glyph in the line. -/
def InLine (s : Console) : Prop := s.cursorX.toNat + 12 ≤ fb.width.toNat

variable {fb gallantData} {s t : Console} {c : UInt8} {color : UInt32} {call : ConsoleCall}
  {calls : List ConsoleCall}

theorem inLine_advance (h : s.InLine fb) : (s.advance fb).InLine fb := by
  have hcolumn := toNat_add_fontWidth h
  have hedge := toNat_width_sub fb
  unfold advance InLine
  dsimp only
  split_ifs with hwrap
  · exact zero_column fb
  · rw [ge_iff_le, UInt32.le_iff_toNat_le, hcolumn, hedge] at hwrap
    dsimp only
    omega

theorem inLine_newline : (s.newline fb).InLine fb := by
  unfold newline
  dsimp only
  split_ifs <;> exact zero_column fb

theorem inLine_kprintChar (h : s.InLine fb) : (s.kprintChar fb gallantData c color).InLine fb := by
  unfold kprintChar
  split_ifs
  · exact h
  · exact inLine_newline
  · exact inLine_advance (s := { s with pixels := _ }) h

theorem inLine_kprintChars (h : s.InLine fb) (str : List UInt8) :
    (s.kprintChars fb gallantData str color).InLine fb := by
  induction str generalizing s with
  | nil => exact h
  | cons c str ih => exact ih (inLine_kprintChar h)

theorem inLine_kprint (h : s.InLine fb) (str : List UInt8) :
    (s.kprint fb gallantData str color).InLine fb := by
  unfold kprint
  split_ifs
  · exact h
  · exact inLine_kprintChars h _

theorem inLine_fbPutc (h : s.InLine fb) : (s.fbPutc fb gallantData c).InLine fb := by
  unfold fbPutc
  split_ifs
  · exact h
  · exact inLine_kprint (s := { s with suppressFb := false }) h [c]

theorem inLine_fbBackspace (h : s.InLine fb) : (s.fbBackspace fb).InLine fb := by
  have hedge := toNat_width_sub fb
  have hwidth := fb.width_ge
  unfold InLine at h ⊢
  unfold fbBackspace
  split_ifs with hsuppress hx
  · exact h
  · have hsub : (s.cursorX - fontWidth).toNat = s.cursorX.toNat - 12 :=
      UInt32.toNat_sub_of_le _ _ hx
    change (s.cursorX - fontWidth).toNat + 12 ≤ _
    omega
  · change (fb.width - fontWidth).toNat + 12 ≤ _
    omega
  · exact zero_column fb

theorem inLine_apply (h : s.InLine fb) : (s.apply fb gallantData call).InLine fb := by
  cases call with
  | kprint str color => exact inLine_kprint h str
  | fbPutc c => exact inLine_fbPutc h
  | fbBackspace => exact inLine_fbBackspace h
  | fbCursorShow =>
    change (s.fbCursorShow).InLine fb
    unfold fbCursorShow
    split_ifs <;> exact h
  | fbCursorHide =>
    change (s.fbCursorHide).InLine fb
    unfold fbCursorHide
    split_ifs <;> exact h

theorem inLine_after (h : s.InLine fb) : (s.after fb gallantData calls).InLine fb := by
  induction calls generalizing s with
  | nil => exact h
  | cons call calls ih => exact ih (inLine_apply h)

/-! ## What printing leaves alone -/

theorem nvecSuppress_kprintChar :
    (s.kprintChar fb gallantData c color).nvecSuppress = s.nvecSuppress := by
  simp only [kprintChar, newline, advance]
  split_ifs <;> rfl

theorem nvecSuppress_kprintChars (str : List UInt8) :
    (s.kprintChars fb gallantData str color).nvecSuppress = s.nvecSuppress := by
  induction str generalizing s with
  | nil => rfl
  | cons c str ih => exact ih.trans nvecSuppress_kprintChar

theorem nvecSuppress_kprint (str : List UInt8) :
    (s.kprint fb gallantData str color).nvecSuppress = s.nvecSuppress := by
  unfold kprint
  split_ifs
  · rfl
  · exact nvecSuppress_kprintChars _

theorem nvecSuppress_apply : (s.apply fb gallantData call).nvecSuppress = s.nvecSuppress := by
  cases call with
  | kprint str color => exact nvecSuppress_kprint str
  | fbPutc c =>
    change (s.fbPutc fb gallantData c).nvecSuppress = _
    unfold fbPutc
    split_ifs
    · rfl
    · exact nvecSuppress_kprint (s := { s with suppressFb := false }) [c]
  | fbBackspace =>
    change (s.fbBackspace fb).nvecSuppress = _
    unfold fbBackspace
    split_ifs <;> rfl
  | fbCursorShow =>
    change (s.fbCursorShow).nvecSuppress = _
    unfold fbCursorShow
    split_ifs <;> rfl
  | fbCursorHide =>
    change (s.fbCursorHide).nvecSuppress = _
    unfold fbCursorHide
    split_ifs <;> rfl

theorem nvecSuppress_after : (s.after fb gallantData calls).nvecSuppress = s.nvecSuppress := by
  induction calls generalizing s with
  | nil => rfl
  | cons call calls ih => exact ih.trans nvecSuppress_apply

/-! ## The pixels of a cell -/

theorem setPixel_apply (pixels : Pixels) (x y x' y' : UInt32) :
    setPixel pixels x y color x' y' = if (x', y') = (x, y) then color else pixels x' y' := by
  by_cases hx : x' = x
  · subst hx
    by_cases hy : y' = y <;> simp [setPixel, hy]
  · simp [setPixel, hx]

theorem putPixel_apply (pixels : Pixels) (x y x' y' : UInt32) :
    putPixel fb pixels x y color x' y' =
      if (x', y') = (x, y) ∧ ¬ Clipped fb x y then color else pixels x' y' := by
  by_cases hclip : Clipped fb x y
  · simp [putPixel, hclip]
  · simp [putPixel, hclip, setPixel_apply]

/-- What is drawn in a cell stays in what the screen shows of it. -/
theorem drawChar_rest (pixels : Pixels) (x y x' y' : UInt32)
    (h : (x', y') ∉ cellOffsets.map (fun o => (x + o.1, y + o.2)) ∨ Clipped fb x' y') :
    drawChar fb gallantData pixels c x y color x' y' = pixels x' y' := by
  unfold drawChar
  split_ifs
  · rfl
  · generalize cellOffsets = offsets at h ⊢
    induction offsets generalizing pixels with
    | nil => rfl
    | cons o offsets ih =>
      have hrest : (x', y') ∉ offsets.map (fun o => (x + o.1, y + o.2)) ∨ Clipped fb x' y' :=
        h.imp_left fun hnot hmem => hnot (List.mem_cons_of_mem _ hmem)
      rw [List.foldl_cons, ih _ hrest]
      split_ifs
      · rw [putPixel_apply]
        apply if_neg
        rintro ⟨heq, hclip⟩
        obtain ⟨rfl, rfl⟩ := Prod.mk.inj heq
        exact h.elim (fun hnot => hnot List.mem_cons_self) hclip
      · rfl

theorem foldl_putPixel_apply (cell : List (UInt32 × UInt32)) (pixels : Pixels) (x y : UInt32) :
    cell.foldl (fun px p => putPixel fb px p.1 p.2 color) pixels x y =
      if (x, y) ∈ cell ∧ ¬ Clipped fb x y then color else pixels x y := by
  induction cell generalizing pixels with
  | nil => simp
  | cons p cell ih =>
    rw [List.foldl_cons, ih, putPixel_apply]
    by_cases hp : (x, y) = p
    · subst hp
      by_cases hclip : Clipped fb x y <;> simp [hclip]
    · simp only [hp, List.mem_cons, false_or, false_and, if_false]

/-- Erasing blanks what the screen shows of the cell. -/
theorem eraseCell_apply (s : Console) (x y : UInt32) : (s.eraseCell fb).pixels x y =
    if (x, y) ∈ s.cell ∧ ¬ Clipped fb x y then fbBgColor else s.pixels x y := by
  unfold eraseCell
  dsimp only
  rw [foldl_putPixel_apply]

/-! ## There and back -/

theorem cString_singleton (hc : fontFirstChar ≤ c) : cString [c] = [c] := by
  have hne : c ≠ 0 := by
    rintro rfl
    exact absurd hc (by decide)
  simp [cString, hne]

/-- A printable character is drawn, and the cursor moves on. -/
theorem fbPutc_printable (hprint : s.nvecSuppress = false) (hc : fontFirstChar ≤ c) :
    s.fbPutc fb gallantData c =
      { s with pixels := drawChar fb gallantData s.pixels c s.cursorX s.cursorY 0xFFFFFFFF }.advance
        fb := by
  have hnewline : c ≠ 0x0A := by
    rintro rfl
    exact absurd hc (by decide)
  simp only [fbPutc, kprint, hprint, cString_singleton hc, kprintChars, List.foldl_cons,
    List.foldl_nil, kprintChar, if_neg hnewline, advance, Bool.false_eq_true, if_false]
  split_ifs <;> rfl

/-- The cell of the character is erased. -/
theorem undoes_eraseCell (hx : t.cursorX = s.cursorX) (hy : t.cursorY = s.cursorY)
    (hpixels : t.pixels = drawChar fb gallantData s.pixels c s.cursorX s.cursorY color) :
    s.Undoes fb (t.eraseCell fb) := by
  have hcell : t.cell = s.cell := by
    unfold cell
    rw [hx, hy]
  refine ⟨hx, hy, fun x y hmem hclip => ?_, fun x y hout => ?_⟩
  · rw [eraseCell_apply, hcell, if_pos ⟨hmem, hclip⟩]
  · rw [eraseCell_apply, hcell, if_neg fun hand => hout.elim (fun hnot => hnot hand.1) hand.2, hpixels]
    exact drawChar_rest _ _ _ _ _ hout

theorem undoes_iff (hline : s.InLine fb) (hprint : s.nvecSuppress = false)
    (hc : fontFirstChar ≤ c) :
    s.Undoes fb ((s.fbPutc fb gallantData c).fbBackspace fb) ↔ s.ComesBack fb := by
  have hcolumn := toNat_add_fontWidth hline
  have hedge := toNat_width_sub fb
  have hwidth := fb.width_ge
  have hfont : fontWidth.toNat = 12 := rfl
  have hheight : fontHeight.toNat = 22 := rfl
  have hsum : (s.cursorY + fontHeight).toNat = (s.cursorY.toNat + 22) % 2 ^ 32 := by
    rw [UInt32.toNat_add, hheight]
  unfold InLine at hline
  rw [fbPutc_printable hprint hc]
  unfold advance ComesBack
  dsimp only
  by_cases hwrap : s.cursorX + fontWidth ≥ fb.width - fontWidth
  · rw [if_pos hwrap]
    rw [ge_iff_le, UInt32.le_iff_toNat_le, hcolumn, hedge] at hwrap
    have hstart : ¬ (0 : UInt32) ≥ fontWidth := by decide
    unfold fbBackspace
    dsimp only
    rw [if_neg (by rw [hprint]; exact Bool.false_ne_true), if_neg hstart]
    by_cases hover : s.cursorY.toNat + 22 < 2 ^ 32
    · have hline' : s.cursorY + fontHeight ≥ fontHeight := by
        rw [ge_iff_le, UInt32.le_iff_toNat_le, hsum]
        omega
      have hback : s.cursorY + fontHeight - fontHeight = s.cursorY := add_sub_cancel_right _ _
      rw [if_pos hline']
      constructor
      · intro hundoes
        have hx : fb.width - fontWidth = s.cursorX := hundoes.cursorX
        rw [← UInt32.toNat_inj, hedge] at hx
        omega
      · intro hcomes
        refine undoes_eraseCell ?_ hback rfl
        dsimp only
        rw [← UInt32.toNat_inj, hedge]
        omega
    · -- the row has wrapped around, and the backspace stays in it
      have hline' : ¬ s.cursorY + fontHeight ≥ fontHeight := by
        rw [ge_iff_le, UInt32.le_iff_toNat_le, hsum]
        have hlt := s.cursorY.toNat_lt
        omega
      rw [if_neg hline']
      constructor
      · intro hundoes
        have hy : s.cursorY + fontHeight = s.cursorY := hundoes.cursorY
        rw [← UInt32.toNat_inj, hsum] at hy
        have hlt := s.cursorY.toNat_lt
        omega
      · intro hcomes
        omega
  · rw [if_neg hwrap]
    rw [ge_iff_le, UInt32.le_iff_toNat_le, hcolumn, hedge] at hwrap
    have hx : s.cursorX + fontWidth ≥ fontWidth := by
      rw [ge_iff_le, UInt32.le_iff_toNat_le, hcolumn]
      omega
    unfold fbBackspace
    dsimp only
    rw [if_neg (by rw [hprint]; exact Bool.false_ne_true), if_pos hx]
    exact iff_of_true (undoes_eraseCell (add_sub_cancel_right _ _) rfl rfl) (Or.inl (by omega))

end Console

open Console

/-- Wherever calls have left the cursor, a backspace takes a character back exactly when the
character does not end its line or was printed in the last cell of a line. -/
theorem backspace_undoes_iff (fb : Framebuffer) (gallantData : ℕ → UInt8) (pixels : Pixels)
    (suppressFb : Bool) (calls : List ConsoleCall) {c : UInt8} (hc : fontFirstChar ≤ c) {s : Console}
    (hs : s = Console.after fb gallantData { Console.start pixels with suppressFb := suppressFb }
      calls) :
    s.Undoes fb ((s.fbPutc fb gallantData c).fbBackspace fb) ↔ s.ComesBack fb := by
  rw [hs]
  refine undoes_iff (inLine_after ?_) nvecSuppress_after hc
  exact zero_column fb

/-- On an empty screen. -/
theorem backspace_undoes_first :
    (Console.start fun _ _ => 0).Undoes twoLines
        (((Console.start fun _ _ => 0).fbPutc twoLines (fun _ => 0xFF) 0x41).fbBackspace twoLines) ↔
      (Console.start fun _ _ => 0).ComesBack twoLines :=
  backspace_undoes_iff twoLines (fun _ => 0xFF) (fun _ _ => 0) false [] (by decide) rfl

/-- Lines of a screen of 36 columns end after two letters, and a backspace comes back to a third
column. -/
theorem second_letter_not_undone :
    ¬ ∀ (fb : Framebuffer) (gallantData : ℕ → UInt8) (pixels : Pixels) (calls : List ConsoleCall)
        (c : UInt8), fontFirstChar ≤ c →
      (Console.after fb gallantData (Console.start pixels) calls).Undoes fb
        (((Console.after fb gallantData (Console.start pixels) calls).fbPutc fb gallantData
          c).fbBackspace fb) := by
  intro hall
  have hcolumn := (hall twoLines (fun _ => 0xFF) (fun _ _ => 0) [.fbPutc 0x41] 0x41
    (by decide)).cursorX
  revert hcolumn
  decide +kernel

end Rhoudveine.Core
