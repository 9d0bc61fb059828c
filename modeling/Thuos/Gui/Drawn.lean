/-
What the graphical console has drawn, character by character.

The console keeps no characters: it draws them, and scrolls the pixels. So
that one can say which character a cell shows, this file lists the calls
of lfb.c that `gcon_putc` makes, in order (`putcCalls`), and follows them
with a plane beside the framebuffer: at each pixel the character last drawn
there, or moved there by a scroll, and nothing where a fill has blanked the
pixel since. The cursor bar leaves the plane alone.

The list is the code's own: made on the framebuffer, the calls draw what
`gcon_putc` draws.
-/
import Thuos.Gui.Gconsole
import Thuos.Video.Proofs.Clip

namespace Thuos.Gui

open Video

/-- The glyph table of `gfx_glyph`. -/
abbrev Glyphs := UInt8 → Nat → UInt8

-- ================================================================ the calls

/-- A call of lfb.c by the console: the fill of `gcon_init`, the fill of a
cursor bar, a character, a scroll. -/
inductive LfbCall
  | blank (x y w h : Int) (rgb : UInt32)
  | bar (x y w h : Int) (rgb : UInt32)
  | char (x y : Int) (ch : Int8) (fg : UInt32) (bg scale : Int)
  | scrollUp (x y w h dy : Int) (fill : UInt32)

/-- The call, made on the framebuffer. -/
def LfbCall.run (glyph : Glyphs) (s : Lfb) : LfbCall → Lfb
  | .blank x y w h rgb => lfbFill s x y w h rgb
  | .bar x y w h rgb => lfbFill s x y w h rgb
  | .char x y ch fg bg scale => lfbChar glyph s x y ch fg bg scale
  | .scrollUp x y w h dy fill => lfbScrollUp s x y w h dy fill

section Calls

variable (g : Gcon)

/-- The call of `cursor_draw` and `cursor_erase`. -/
def barCall (rgb : UInt32) : LfbCall :=
  .bar (g.ox + g.cx * g.cw) (g.oy + g.cy * g.ch + g.ch - 2 * g.scale) g.cw
    (2 * g.scale) rgb

/-- A character in the cursor's cell. -/
def charCall (c : Int8) : LfbCall :=
  .char (g.ox + g.cx * g.cw) (g.oy + g.cy * g.ch) c g.fg g.bg.toInt32.toInt
    g.scale

/-- The calls of `newline`. -/
def newlineCalls : List LfbCall :=
  if g.cy + 1 ≥ g.rows then
    [.scrollUp g.ox g.oy (g.cols * g.cw) (g.rows * g.ch) g.ch g.bg]
  else []

/-- The calls in the switch of `gcon_putc`. -/
def switchCalls (c : Int8) : List LfbCall :=
  if c = 10 then newlineCalls g
  else if c = 13 then []
  else if c = 9 then
    if tabStop g.cx ≥ g.cols then newlineCalls g else []
  else if c = 8 then
    if g.cx > 0 then [charCall { g with cx := g.cx - 1 } 0x20] else []
  else charCall g c :: if g.cx + 1 ≥ g.cols then newlineCalls g else []

/-- The calls of `gcon_putc`: the last bar is where the cursor is then. -/
def putcCalls (glyph : Glyphs) (c : Int8) : List LfbCall :=
  if ¬g.active then []
  else
    let g' := gconPutc glyph g c
    barCall g g.bg :: (switchCalls g c ++ [barCall g' g'.accent])

/-- The calls of `gcon_init`. -/
def initCalls (x y c r s : Int) (f b : UInt32) : List LfbCall :=
  let g' := gconInit g x y c r s f b
  [.blank x y (c * (8 * s)) (r * (16 * s)) b, barCall g' g'.accent]

end Calls

-- ================================================================ the plane

/-- At each pixel, by column and row, the character drawn there. -/
abbrev Plane := Int → Int → Option UInt8

/-- The plane after a call on the framebuffer `s`: fills and characters are
clipped to it, the copy of a scroll is not. -/
def LfbCall.mark (s : Lfb) (p : Plane) : LfbCall → Plane
  | .blank x y w h _ => fun col row =>
      if InRect x y w h col row ∧ s.Inside (col, row) then none
      else p col row
  | .bar _ _ _ _ _ => p
  | .char x y ch _ _ scale => fun col row =>
      if InRect x y (8 * scale) (16 * scale) col row
          ∧ s.Inside (col, row) then some ch.toUInt8
      else p col row
  | .scrollUp x y w h dy _ => fun col row =>
      if InRect x y w (h - dy) col row then p col (row + dy)
      else if InRect x (y + h - dy) w dy col row ∧ s.Inside (col, row) then
        none
      else p col row

-- =========================================================== the two, traced

/-- The console and the plane. -/
structure Traced where
  gcon : Gcon
  plane : Plane

namespace Traced

/-- `gcon_init`. -/
def init (t : Traced) (x y c r s : Int) (f b : UInt32) : Traced where
  gcon := gconInit t.gcon x y c r s f b
  plane := (initCalls t.gcon x y c r s f b).foldl
    (LfbCall.mark t.gcon.lfb) t.plane

/-- `gcon_putc`. -/
def putc (glyph : Glyphs) (t : Traced) (c : Int8) : Traced where
  gcon := gconPutc glyph t.gcon c
  plane := (putcCalls t.gcon glyph c).foldl
    (LfbCall.mark t.gcon.lfb) t.plane

/-- The cell has the character at each of its pixels, a blank where none
is drawn. -/
def Shows (t : Traced) (y x : Nat) (b : UInt8) : Prop :=
  ∀ col row, InRect (t.gcon.ox + x * t.gcon.cw) (t.gcon.oy + y * t.gcon.ch)
    t.gcon.cw t.gcon.ch col row → (t.plane col row).getD 0x20 = b

/-- A cell shows one character, if it has a pixel. -/
theorem Shows.unique {t : Traced} {y x : Nat} {a b : UInt8}
    (h : t.Shows y x a) (h' : t.Shows y x b) (hcw : 0 < t.gcon.cw)
    (hch : 0 < t.gcon.ch) : a = b := by
  have hcorner : InRect (t.gcon.ox + x * t.gcon.cw)
      (t.gcon.oy + y * t.gcon.ch) t.gcon.cw t.gcon.ch
      (t.gcon.ox + x * t.gcon.cw) (t.gcon.oy + y * t.gcon.ch) := by
    refine ⟨?_, ?_, ?_, ?_⟩ <;> omega
  rw [← h _ _ hcorner, ← h' _ _ hcorner]

end Traced

end Thuos.Gui
