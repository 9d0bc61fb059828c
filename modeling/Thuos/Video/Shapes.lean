/-
What kernel/drivers/lfb.c draws out of fills and pixels: rectangles, boxes
with round corners, discs, lines and text.

`isqrt` counts up from nought, so as many turns as its argument are always
enough. The loop of `lfb_line` stops at the end point and nowhere else; it
is on fuel, and returns its turns too, which the code does not keep.
-/
import Thuos.Lib.CStr
import Thuos.Video.Lfb

namespace Thuos.Video

open Loop

/-- `lfb_rect`. -/
def lfbRect (s : Lfb) (x y w h : Int) (rgb : UInt32) : Lfb :=
  let s := lfbFill s x y w 1 rgb
  let s := lfbFill s x (y + h - 1) w 1 rgb
  let s := lfbFill s x y 1 h rgb
  lfbFill s (x + w - 1) y 1 h rgb

/-- The loop of `isqrt`. -/
def isqrtLoop (n : Int) : Nat → Int → Int
  | 0, x => x
  | fuel + 1, x =>
      if (x + 1) * (x + 1) ≤ n then isqrtLoop n fuel (x + 1) else x

/-- `isqrt`. -/
def isqrt (n : Int) : Int := isqrtLoop n n.toNat 0

/-- `corner_inset`. -/
def cornerInset (j h r : Int) : Int :=
  let dy :=
    if j < r then r - j
    else if j ≥ h - r then r - (h - 1 - j)
    else -1
  if dy < 0 then 0 else r - isqrt (r * r - dy * dy)

/-- `lfb_round_fill`. -/
def lfbRoundFill (s : Lfb) (x y w h r : Int) (rgb : UInt32) : Lfb :=
  let r := if r * 2 > h then h.tdiv 2 else r
  let r := if r * 2 > w then w.tdiv 2 else r
  upTo h.toNat (fun s (j : Nat) =>
    let inset := cornerInset j h r
    lfbFill s (x + inset) (y + j) (w - 2 * inset) 1 rgb) s

/-- `lfb_disc`: turn `i` is that of `dy = i - r`. -/
def lfbDisc (s : Lfb) (cx cy r : Int) (rgb : UInt32) : Lfb :=
  upTo (2 * r + 1).toNat (fun s (i : Nat) =>
    let dy := i - r
    let half := isqrt (r * r - dy * dy)
    lfbFill s (cx - half) (cy + dy) (2 * half + 1) 1 rgb) s

/-- `lfb_text`. -/
def lfbText (glyph : UInt8 → Nat → UInt8) (s : Lfb) (x y : Int) (str : CStr)
    (fg : UInt32) (bg scale : Int) : Lfb :=
  (str.chars.foldl (fun (r : Lfb × Int) c =>
    (lfbChar glyph r.1 r.2 y c.toInt8 fg bg scale, r.2 + 8 * scale))
    (s, x)).1

-- ==================================================================== lines

/-- The variables of `lfb_line` that its loop does not change. -/
structure LineVars where
  x1 : Int
  y1 : Int
  adx : Int
  ady : Int
  sx : Int
  sy : Int
deriving DecidableEq

/-- Those that it does. -/
structure LineTurn where
  x0 : Int
  y0 : Int
  err : Int
deriving DecidableEq

/-- The two steps at the end of a turn: `e2` is the error before them. -/
def lineMove (v : LineVars) (t : LineTurn) : LineTurn :=
  let e2 := t.err
  let t :=
    if e2 > -v.adx then { t with err := t.err - v.ady, x0 := t.x0 + v.sx }
    else t
  if e2 < v.ady then { t with err := t.err + v.adx, y0 := t.y0 + v.sy }
  else t

/-- The loop of `lfb_line`. -/
def lineLoop (v : LineVars) (rgb : UInt32) :
    Nat → Lfb → LineTurn → Option (Lfb × List LineTurn)
  | 0, _, _ => none
  | fuel + 1, s, t =>
      let s := lfbPixel s t.x0 t.y0 rgb
      if t.x0 = v.x1 ∧ t.y0 = v.y1 then some (s, [t])
      else
        (lineLoop v rgb fuel s (lineMove v t)).map fun r =>
          (r.1, t :: r.2)

/-- The variables of `lfb_line` before its loop. -/
def lineVars (x0 y0 x1 y1 : Int) : LineVars :=
  let dx := x1 - x0
  let dy := y1 - y0
  { x1 := x1
    y1 := y1
    adx := if dx < 0 then -dx else dx
    ady := if dy < 0 then -dy else dy
    sx := if dx < 0 then -1 else 1
    sy := if dy < 0 then -1 else 1 }

/-- The first turn. -/
def lineStart (x0 y0 x1 y1 : Int) : LineTurn :=
  let v := lineVars x0 y0 x1 y1
  { x0 := x0
    y0 := y0
    err := (if v.adx > v.ady then v.adx else -v.ady).tdiv 2 }

/-- `lfb_line`. -/
def lfbLine (fuel : Nat) (s : Lfb) (x0 y0 x1 y1 : Int) (rgb : UInt32) :
    Option (Lfb × List LineTurn) :=
  lineLoop (lineVars x0 y0 x1 y1) rgb fuel s (lineStart x0 y0 x1 y1)

end Thuos.Video
