/-
The graphical text console (kernel/gui/gconsole.c) and the place on the
desktop where the terminal stands (kernel/gui/desktop.c).

The console draws through lfb.c only. What `desktop_draw` and
`desktop_open_app` draw themselves, the wallpaper, the windows and the
dock, is left out; the welcome text that is printed into a new terminal is
the start of what the terminal is sent.
-/
import Thuos.Lib.Machine
import Thuos.Video.Lfb

namespace Thuos.Gui

open Video

/-- The statics of gconsole.c, and the framebuffer it draws into. -/
structure Gcon where
  active : Bool
  ox : Int
  oy : Int
  cols : Int
  rows : Int
  scale : Int
  cw : Int
  ch : Int
  cx : Int
  cy : Int
  fg : UInt32
  bg : UInt32
  accent : UInt32
  lfb : Lfb

/-- The statics at boot. -/
def Gcon.boot (lfb : Lfb) : Gcon where
  active := false
  ox := 0
  oy := 0
  cols := 0
  rows := 0
  scale := 0
  cw := 0
  ch := 0
  cx := 0
  cy := 0
  fg := 0x9defb0
  bg := 0x0b0e14
  accent := 0x6cc7ff
  lfb := lfb

/-- The bar under the cursor's cell, in a colour. -/
def cursorBar (g : Gcon) (rgb : UInt32) : Gcon :=
  { g with
    lfb := lfbFill g.lfb (g.ox + g.cx * g.cw)
      (g.oy + g.cy * g.ch + g.ch - 2 * g.scale) g.cw (2 * g.scale) rgb }

/-- `cursor_draw`. -/
def cursorDraw (g : Gcon) : Gcon := cursorBar g g.accent

/-- `cursor_erase`. -/
def cursorErase (g : Gcon) : Gcon := cursorBar g g.bg

/-- `gcon_init`. -/
def gconInit (g : Gcon) (x y c r s : Int) (f b : UInt32) : Gcon :=
  let g :=
    { g with
      ox := x, oy := y, cols := c, rows := r, scale := s
      cw := 8 * s, ch := 16 * s, cx := 0, cy := 0, fg := f, bg := b }
  let g :=
    { g with
      lfb := lfbFill g.lfb g.ox g.oy (g.cols * g.cw) (g.rows * g.ch) g.bg }
  cursorDraw { g with active := true }

/-- `newline`. -/
def newline (g : Gcon) : Gcon :=
  let g := { g with cx := 0, cy := g.cy + 1 }
  if g.cy ≥ g.rows then
    { g with
      lfb := lfbScrollUp g.lfb g.ox g.oy (g.cols * g.cw) (g.rows * g.ch) g.ch
        g.bg
      cy := g.rows - 1 }
  else g

/-- The glyph of a character in the cursor's cell. -/
def cellChar (glyph : UInt8 → Nat → UInt8) (g : Gcon) (c : Int8) : Gcon :=
  { g with
    lfb := lfbChar glyph g.lfb (g.ox + g.cx * g.cw) (g.oy + g.cy * g.ch) c
      g.fg g.bg.toInt32.toInt g.scale }

/-- `(cx + 4) & ~3`. -/
def tabStop (cx : Int) : Int := (Int32.ofInt (cx + 4) &&& ~~~3).toInt

/-- `gcon_putc`. -/
def gconPutc (glyph : UInt8 → Nat → UInt8) (g : Gcon) (c : Int8) : Gcon :=
  if ¬g.active then g
  else
    let g := cursorErase g
    let g :=
      if c = 10 then newline g
      else if c = 13 then { g with cx := 0 }
      else if c = 9 then
        let g := { g with cx := tabStop g.cx }
        if g.cx ≥ g.cols then newline g else g
      else if c = 8 then
        if g.cx > 0 then cellChar glyph { g with cx := g.cx - 1 } 0x20 else g
      else
        let g := cellChar glyph g c
        let g := { g with cx := g.cx + 1 }
        if g.cx ≥ g.cols then newline g else g
    cursorDraw g

-- ============================================================= the desktop

/-- The console region that `desktop_draw` computes: `gcx`, `gcy`,
`gcols` and `grows`. -/
structure ConsoleRegion where
  gcx : Int
  gcy : Int
  gcols : Int
  grows : Int

/-- The layout of `desktop_draw`. -/
def consoleRegion (W : Int) : ConsoleRegion :=
  let ww := 820
  let wh := 552
  let wx := (W - ww).tdiv 2
  let wy := 84
  let th := 40
  let pad := 16
  let px := wx + pad
  let py := wy + th + pad
  let pw := ww - 2 * pad
  let ph := wh - th - 2 * pad
  { gcx := px + 10
    gcy := py + 8
    gcols := (pw - 20).tdiv 16
    grows := (ph - 16).tdiv 32 }

/-- A new terminal, as `desktop_open_app` opens it on the desktop that
`desktop_draw` has laid out. The log starts here. -/
def openTerminal (lfb : Lfb) : Gcon :=
  let r := consoleRegion lfb.W
  gconInit (Gcon.boot { lfb with log := [] }) r.gcx r.gcy r.gcols r.grows 2
    0x9defb0 0x0a0f1a

/-- The character scrolls the console: it moves the cursor past the last
row. -/
def Scrolls (g : Gcon) (c : Int8) : Prop :=
  g.cy + 1 ≥ g.rows
    ∧ (c = 10 ∨ (c = 9 ∧ tabStop g.cx ≥ g.cols)
      ∨ (c ≠ 10 ∧ c ≠ 13 ∧ c ≠ 9 ∧ c ≠ 8 ∧ g.cx + 1 ≥ g.cols))

instance (g : Gcon) (c : Int8) : Decidable (Scrolls g c) :=
  inferInstanceAs (Decidable (_ ∧ _))

end Thuos.Gui
