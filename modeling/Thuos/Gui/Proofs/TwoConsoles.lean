/-
The two consoles are one terminal.

Fed the same characters, the text console and the graphical console both
follow a `Terminal` of 25 by 80 bytes, the control characters moving its
cursor and every other byte written at it. The text console holds that
screen in the low bytes of its words (`vga_reads`). The graphical console
holds it in the plane of what is drawn (`FollowsAs`), and shows it on the
framebuffer (`Traced.Draws`). So after every prefix of the stream the
cursors are at one place and the cells have the same characters, drawn by
`lfb_char` and shifted by `lfb_scroll_up`.
-/
import Thuos.Gui.Proofs.Painted
import Thuos.Video.Proofs.VgaConsole

namespace Thuos.Gui

open Video Machine Terminal

/-- A screen of characters, 25 rows of 80. -/
abbrev Screen := Terminal 25 80 UInt8

namespace Screen

/-- A cleared screen. -/
def cleared : Screen where
  cell := fun _ _ => 0x20
  row := 0
  col := 0

/-- One character. -/
def putc (t : Screen) (c : Int8) : Screen := t.feed 0x20 id c.toUInt8

end Screen

-- ========================================================== the text console

/-- The character of a cell of the text console. -/
def vgaChar (v : Vga) (y x : Nat) : UInt8 :=
  (v.mem (y * VGA_WIDTH + x)).toUInt8

/-- The low half of a cell, whatever the sign of the character does to the
high half. -/
theorem vgaPacking_low (b color : UInt8) :
    (vgaPacking b color).toUInt8 = b := by
  have hb := b.toNat_lt
  rw [← UInt8.toNat_inj, UInt16.toNat_toUInt8, vgaPacking_toNat]
  split
  · omega
  · omega

/-- The console of words that has these characters, in one colour. -/
def inColour (color : UInt8) (t : Screen) : Console where
  screen := t.map fun b => vgaPacking b color
  colour := color

/-- The character, as the reference of the driver takes it. -/
theorem inColour_putc (color : UInt8) (t : Screen) (c : Int8) :
    (inColour color t).step vgaPacking (.putc c.toUInt8)
      = inColour color (t.putc c) := by
  have hmap := map_feed (fun b => vgaPacking b color) t 0x20 id c.toUInt8
  unfold Screen.putc inColour Console.step
  rw [hmap]
  unfold feed
  dsimp only
  split_ifs <;> rfl

/-- The text console, cleared and fed. -/
theorem vga_follows (v : Vga) (text : List Int8) :
    Shown v.mem (exec vgaPutc (vgaClear v) text)
      (inColour v.vgaColor (exec Screen.putc Screen.cleared text)) := by
  have hrun : ∀ {w : Vga} {t : Screen},
      Shown v.mem w (inColour v.vgaColor t) →
        Shown v.mem (exec vgaPutc w text)
          (inColour v.vgaColor (exec Screen.putc t text)) := by
    induction text with
    | nil => exact id
    | cons c text ih =>
        intro w t h
        have hstep := h.putc c.toUInt8
        rw [inColour_putc, Int8.toInt8_toUInt8] at hstep
        exact ih hstep
  exact hrun (shown_clear v)

/-- What the text console shows. -/
structure VgaReads (v : Vga) (t : Screen) : Prop where
  row : v.vgaRow = t.row
  col : v.vgaCol = t.col
  char : ∀ (y : Fin 25) (x : Fin 80), vgaChar v y x = t.cell y x

theorem vga_reads (v : Vga) (text : List Int8) :
    VgaReads (exec vgaPutc (vgaClear v) text)
      (exec Screen.putc Screen.cleared text) := by
  have h := vga_follows v text
  refine ⟨h.row, h.col, fun y x => ?_⟩
  have hword := h.laid y x
  unfold vgaChar
  show (Vga.mem _ (index 80 y x)).toUInt8 = _
  rw [hword]
  exact vgaPacking_low _ _

-- ===================================================== the graphical console

section Run

variable {r : Traced} {t : Screen}

theorem follows_exec (h : r.FollowsAs t) (glyph : Glyphs)
    (text : List Int8) :
    (exec (Traced.putc glyph) r text).FollowsAs (exec Screen.putc t text) := by
  induction text generalizing r t with
  | nil => exact h
  | cons c text ih => exact ih (h.putc glyph fun _ => Nat.le_refl 80)

theorem draws_exec {glyph : Glyphs} (h : r.Draws glyph t)
    (text : List Int8) :
    (exec (Traced.putc glyph) r text).Draws glyph
      (exec Screen.putc t text) := by
  induction text generalizing r t with
  | nil => exact h
  | cons c text ih => exact ih (h.putc fun _ => Nat.le_refl 80)

/-- The trace leaves the console as it is. -/
theorem exec_gcon (glyph : Glyphs) (r : Traced) (text : List Int8) :
    (exec (Traced.putc glyph) r text).gcon
      = exec (gconPutc glyph) r.gcon text := by
  induction text generalizing r with
  | nil => rfl
  | cons c text ih => exact ih (r.putc glyph c)

end Run

-- =============================================================== the result

/-- The two consoles have the cursor at one place and the same character
in every cell, and no other in a cell that has pixels. -/
structure Agree (v : Vga) (r : Traced) : Prop where
  col : (v.vgaCol : Int) = r.gcon.cx
  row : (v.vgaRow : Int) = r.gcon.cy
  cell : ∀ (y : Fin 25) (x : Fin 80), r.Shows y x (vgaChar v y x)
  only : 0 < r.gcon.scale → ∀ (y : Fin 25) (x : Fin 80) (b : UInt8),
    r.Shows y x b → b = vgaChar v y x

theorem agree_of_reads {v : Vga} {r : Traced} {t : Screen}
    (hv : VgaReads v t) (hr : r.FollowsAs t) : Agree v r := by
  have hcell : ∀ (y : Fin 25) (x : Fin 80), r.Shows y x (vgaChar v y x) := by
    intro y x px py hin
    rw [hv.char]
    exact hr.tiled y x px py (inCell_iff.mpr hin)
  refine ⟨?_, ?_, hcell, fun hscale y x b hb => ?_⟩
  · rw [hv.col]
    exact hr.cx.symm
  · rw [hv.row]
    exact hr.cy.symm
  · have hcw := hr.cw
    have hch := hr.ch
    exact hb.unique (hcell y x) (by omega) (by omega)

/-- The screen of the graphical console shows the characters of the text
console, pixel by pixel. -/
def SamePixels (glyph : Glyphs) (v : Vga) (g : Gcon) : Prop :=
  ∀ (y : Fin 25) (x : Fin 80), g.Depicts glyph y x (vgaChar v y x)

/-- Any text console, cleared, and any graphical console, opened with 80
columns and 25 rows on a screen that contains its area, whatever has been
drawn before: after every prefix of the same text they agree on the cursor
and on the character that was last drawn or shifted to each cell; the calls
that the characters are read from are those that `gcon_putc` makes; and
where all that is drawn can be seen, the pixels of each cell above the
cursor bar are those of its character. -/
theorem consoles_agree (glyph : Glyphs) (v : Vga) (r : Traced)
    (x y scale : Int) (f b : UInt32)
    (harea : ContainedAs 25 80 r.gcon.lfb x y scale) (text : List Int8)
    (n : Nat) :
    let v' := exec vgaPutc (vgaClear v) (text.take n)
    let r' := exec (Traced.putc glyph) (r.init x y 80 25 scale f b)
      (text.take n)
    Agree v' r'
      ∧ r'.gcon = exec (gconPutc glyph) (gconInit r.gcon x y 80 25 scale f b)
        (text.take n)
      ∧ (∀ c, (gconPutc glyph r'.gcon c).lfb
        = runCalls glyph r'.gcon.lfb (putcCalls r'.gcon glyph c))
      ∧ (Visible r.gcon.lfb scale b → SamePixels glyph v' r'.gcon) := by
  intro v' r'
  have hreads : VgaReads v' _ := vga_reads v (text.take n)
  have hfollows := r.init_followsAs f b (by decide) (by decide) harea
  refine ⟨agree_of_reads hreads (follows_exec hfollows glyph _),
    exec_gcon glyph _ _, fun c => gconPutc_calls glyph r'.gcon c,
    fun hvisible row col => ?_⟩
  have hdraws := draws_exec (r.init_draws glyph f (by decide) (by decide)
    harea hvisible) (text.take n)
  rw [hreads.char]
  exact hdraws.depicts row col

/-- A text console that has been written on. -/
def usedVga : Vga where
  vgaRow := 3
  vgaCol := 7
  vgaColor := 0x1F
  mem := fun _ => 0x0741
  crtc := { index := 0x0E, reg := fun _ => 0xFF }

/-- A console not yet opened, on a screen of 640 by 400 pixels. -/
def freshTrace : Traced where
  gcon := Gcon.boot { Lfb.zero with W := 640, H := 400, pitchPx := 640 }
  plane := fun _ _ => some 0x41

/-- Two letters, a tab, a backspace and a newline, before the newline. -/
def lineText : List Int8 := [104, 105, 9, 8, 10]

theorem consoles_agree_line :
    (exec vgaPutc (vgaClear usedVga) (lineText.take 4)).vgaCol = 3
      ∧ Agree (exec vgaPutc (vgaClear usedVga) (lineText.take 4))
        (exec (Traced.putc fun _ _ => 0x18)
          (freshTrace.init 0 0 80 25 1 0x9DEFB0 0x0B0E14)
          (lineText.take 4))
      ∧ SamePixels (fun _ _ => 0x18)
        (exec vgaPutc (vgaClear usedVga) (lineText.take 4))
        (exec (Traced.putc fun _ _ => 0x18)
          (freshTrace.init 0 0 80 25 1 0x9DEFB0 0x0B0E14)
          (lineText.take 4)).gcon := by
  have harea : ContainedAs 25 80 freshTrace.gcon.lfb 0 0 1 := by
    refine ⟨?_, ?_, ?_, ?_⟩ <;> decide
  obtain ⟨hagree, -, -, hpicture⟩ := consoles_agree (fun _ _ => 0x18) usedVga
    freshTrace 0 0 1 0x9DEFB0 0x0B0E14 harea lineText 4
  exact ⟨by decide +kernel, hagree,
    hpicture ⟨by decide, by decide, by decide⟩⟩

end Thuos.Gui
