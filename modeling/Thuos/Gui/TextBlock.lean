/-
Text in a block (kernel/gui/apps.c, `text_block`): it starts a new row at a
newline, and before a character that finds the row full.
-/
import Thuos.Video.Shapes

namespace Thuos.Gui

open Video

/-- The variables of `text_block`, and the framebuffer it draws into. -/
structure Block where
  lfb : Lfb
  y : Int
  cx : Int
  col : Int

/-- One character; `cols` is how many fit, `cw` and `lh` are the size of
each. -/
def blockChar (glyph : UInt8 → Nat → UInt8) (x cols cw lh : Int)
    (fg : UInt32) (scale : Int) (b : Block) (c : UInt8) : Block :=
  if c = 10 then { b with y := b.y + lh, cx := x, col := 0 }
  else
    let b :=
      if b.col ≥ cols then { b with y := b.y + lh, cx := x, col := 0 } else b
    { b with
      lfb := lfbChar glyph b.lfb b.cx b.y c.toInt8 fg (-1) scale
      cx := b.cx + cw, col := b.col + 1 }

/-- `text_block`: the framebuffer, and the `y` it returns. -/
def textBlock (glyph : UInt8 → Nat → UInt8) (s : Lfb) (x y w : Int)
    (str : CStr) (fg : UInt32) (scale : Int) : Lfb × Int :=
  let cw := 8 * scale
  let lh := 16 * scale
  let cols := w.tdiv cw
  let b := str.chars.foldl (blockChar glyph x cols cw lh fg scale) ⟨s, y, x, 0⟩
  (b.lfb, b.y + lh)

end Thuos.Gui
