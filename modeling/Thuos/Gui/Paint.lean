/-
Paint (kernel/gui/apps.c): a canvas, a palette, and strokes that follow
the mouse while its button is held.

The state is the statics of the application and the framebuffer that it
draws into, and beside them the centres of the discs that strokes have
drawn, which the code does not keep.
-/
import Thuos.Lib.Machine
import Thuos.Video.Shapes

namespace Thuos.Gui

open Loop Machine Video

def PANEL_BG : UInt32 := 0x0a0f1a
def CARD2 : UInt32 := 0x1b263d
def TXT_HI : UInt32 := 0xe8eefc
def TXT_LO : UInt32 := 0x8aa0c0

def PA_PAL : List UInt32 :=
  [0xffffff, 0xff5f56, 0xffbd2e, 0x27c93f, 0x6cc7ff, 0xb18cff, 0x0a0f1a]

structure Paint where
  /-- the canvas -/
  paCx : Int
  paCy : Int
  paCw : Int
  paCh : Int
  /-- the palette -/
  paPx : Int
  paPy : Int
  paSw : Int
  paGap : Int
  paCol : UInt32
  /-- the clear button -/
  paClrx : Int
  paClry : Int
  paClrw : Int
  paClrh : Int
  /-- the last point of the stroke -/
  paLx : Int
  paLy : Int
  lfb : Lfb
  discs : List (Int × Int)

/-- The statics at boot. -/
def Paint.boot (lfb : Lfb) : Paint where
  paCx := 0
  paCy := 0
  paCw := 0
  paCh := 0
  paPx := 0
  paPy := 0
  paSw := 0
  paGap := 0
  paCol := 0
  paClrx := 0
  paClry := 0
  paClrw := 0
  paClrh := 0
  paLx := -1
  paLy := -1
  lfb := lfb
  discs := []

/-- `pa_in_canvas`. -/
def paInCanvas (p : Paint) (x y : Int) : Prop :=
  p.paCx + 4 ≤ x ∧ x < p.paCx + p.paCw - 4
    ∧ p.paCy + 4 ≤ y ∧ y < p.paCy + p.paCh - 4

instance (p : Paint) (x y : Int) : Decidable (paInCanvas p x y) :=
  inferInstanceAs (Decidable (_ ∧ _))

/-- The canvas, in white. -/
def paintCanvas (p : Paint) : Paint :=
  { p with
    lfb := lfbRoundFill p.lfb p.paCx p.paCy p.paCw p.paCh 8 0xf3f5fa }

/-- The swatches of the palette; the black one has a frame. -/
def paintSwatches (p : Paint) : Paint :=
  upTo 7 (fun p (i : Nat) =>
    let sx := p.paPx + i * (p.paSw + p.paGap)
    let p :=
      { p with
        lfb := lfbRoundFill p.lfb sx p.paPy p.paSw p.paSw 8
          (PA_PAL.getD i 0) }
    if i = 6 then
      { p with lfb := lfbRect p.lfb sx p.paPy p.paSw p.paSw 0x445 }
    else p) p

/-- The panel and its heading. -/
def paintHeading (glyph : UInt8 → Nat → UInt8) (s : Lfb) (x y w h : Int) :
    Lfb :=
  let s := lfbFill s x y w h PANEL_BG
  let s := lfbText glyph s (x + 16) (y + 12) (CStr.ofString "Paint") TXT_HI
    (-1) 2
  lfbText glyph s (x + 16) (y + 44)
    (CStr.ofString "drag on the canvas to draw - pick a colour below") TXT_LO
    (-1) 1

/-- The clear button. -/
def paintClear (glyph : UInt8 → Nat → UInt8) (p : Paint) (x w : Int) :
    Paint :=
  let p :=
    { p with
      paClrw := 90, paClrh := 40, paClrx := x + w - 16 - 90
      paClry := p.paPy }
  let s := lfbRoundFill p.lfb p.paClrx p.paClry p.paClrw p.paClrh 8 CARD2
  { p with
    lfb := lfbText glyph s (p.paClrx + 16) (p.paClry + 4)
      (CStr.ofString "Clear") TXT_HI (-1) 2 }

/-- `app_paint_open`. -/
def appPaintOpen (glyph : UInt8 → Nat → UInt8) (p : Paint) (x y w h : Int) :
    Paint :=
  let p :=
    { p with
      paLx := -1, paLy := -1, lfb := paintHeading glyph p.lfb x y w h }
  let p :=
    { p with
      paCx := x + 16, paCy := y + 70, paCw := w - 32, paCh := h - 70 - 70 }
  let p := paintCanvas p
  let p :=
    { p with
      paSw := 40, paGap := 12, paPx := x + 16
      paPy := p.paCy + p.paCh + 14 }
  let p := paintSwatches p
  let p := { p with paCol := PA_PAL.getD 6 0 }
  paintClear glyph p x w

/-- `lfb_disc(cx, cy, 3, pa_col)`. -/
def paintDisc (p : Paint) (cx cy : Int) : Paint :=
  { p with
    lfb := lfbDisc p.lfb cx cy 3 p.paCol, discs := p.discs ++ [(cx, cy)] }

/-- `steps` of `app_paint_motion`: the longer of the two sides, at least
one. -/
def paintSteps (dx dy : Int) : Int :=
  let steps := if dx < 0 then -dx else dx
  let ady := if dy < 0 then -dy else dy
  let steps := if ady > steps then ady else steps
  if steps < 1 then 1 else steps

/-- `app_paint_motion`. -/
def appPaintMotion (p : Paint) (mx my : Int) : Paint :=
  if ¬ paInCanvas p mx my then { p with paLx := -1 }
  else if p.paLx < 0 then
    { paintDisc p mx my with paLx := mx, paLy := my }
  else
    let dx := mx - p.paLx
    let dy := my - p.paLy
    let steps := paintSteps dx dy
    -- interpolate -> solid stroke
    let p := upTo (steps + 1).toNat (fun p (i : Nat) =>
      paintDisc p (p.paLx + (dx * i).tdiv steps)
        (p.paLy + (dy * i).tdiv steps)) p
    { p with paLx := mx, paLy := my }

/-- The swatch that is clicked on. -/
def swatchHit (p : Paint) (mx my : Int) : Option Nat :=
  (List.range 7).find? fun i =>
    let sx := p.paPx + i * (p.paSw + p.paGap)
    sx ≤ mx && mx < sx + p.paSw && p.paPy ≤ my && my < p.paPy + p.paSw

/-- `app_paint_click`. -/
def appPaintClick (p : Paint) (mx my : Int) : Paint :=
  let p := { p with paLx := -1 }
  match swatchHit p mx my with
  | some i => { p with paCol := PA_PAL.getD i 0 }
  | none =>
      if p.paClrx ≤ mx ∧ mx < p.paClrx + p.paClrw ∧ p.paClry ≤ my
          ∧ my < p.paClry + p.paClrh then
        paintCanvas p
      else appPaintMotion p mx my

-- ================================================================== sessions

/-- What the desktop passes on to Paint. -/
inductive PaintOp
  | click (mx my : Int)
  | motion (mx my : Int)
deriving DecidableEq

def PaintOp.step (p : Paint) : PaintOp → Paint
  | .click mx my => appPaintClick p mx my
  | .motion mx my => appPaintMotion p mx my

/-- Paint, opened and used. -/
def paintRun (glyph : UInt8 → Nat → UInt8) (p : Paint) (x y w h : Int)
    (ops : List PaintOp) : Paint :=
  exec PaintOp.step (appPaintOpen glyph p x y w h) ops

end Thuos.Gui
