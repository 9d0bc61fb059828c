/-
Gradients and copies (kernel/drivers/lfb.c): the colours between two
colours, and the rectangles that the mouse cursor takes off the screen and
puts back.

A buffer of pixels is a function of the index.
-/
import Thuos.Video.Shapes

namespace Thuos.Video

open Loop

-- =============================================================== the gradient

/-- One of the three channels of `lerp`: `(c >> shift) & 0xFF`. -/
def channel (c : UInt32) (shift : UInt32) : Int :=
  ((c >>> shift) &&& 0xFF).toNat

/-- `ar + (br - ar) * num / den`, while the product is an `int`. -/
def lerpChannel (a b num den : Int) : Int := a + ((b - a) * num).tdiv den

/-- `lerp`. -/
def lerp (a b : UInt32) (num den : Int) : UInt32 :=
  let r := lerpChannel (channel a 16) (channel b 16) num den
  let g := lerpChannel (channel a 8) (channel b 8) num den
  let bl := lerpChannel (channel a 0) (channel b 0) num den
  (UInt32.ofInt r <<< 16) ||| (UInt32.ofInt g <<< 8) ||| UInt32.ofInt bl

/-- `lfb_gradient_v`. -/
def lfbGradientV (s : Lfb) (x y w h : Int) (top bot : UInt32) : Lfb :=
  upTo h.toNat (fun s (j : Nat) =>
    lfbFill s x (y + j) w 1 (lerp top bot j (if h > 1 then h - 1 else 1))) s

-- ================================================================= the copies

/-- The framebuffer with another log. -/
def Lfb.withLog (s : Lfb) (log : List (Int × Int)) : Lfb :=
  { s with log := log }

/-- `lfb_blit_get`: what is off the screen is 0. -/
def lfbBlitGet (s : Lfb) (x y w h : Int) (buf : Nat → UInt32) :
    Lfb × (Nat → UInt32) :=
  upTo h.toNat (fun r (j : Nat) =>
    upTo w.toNat (fun (r : Lfb × (Nat → UInt32)) (i : Nat) =>
      let (s, buf) := r
      let xx := x + i
      let yy := y + j
      let k := j * w.toNat + i
      if unsigned xx < unsigned s.W ∧ unsigned yy < unsigned s.H then
        (s.touch xx yy, Function.update buf k (s.read xx yy))
      else (s, Function.update buf k 0)) r) (s, buf)

/-- `lfb_blit_put`. -/
def lfbBlitPut (s : Lfb) (x y w h : Int) (buf : Nat → UInt32) : Lfb :=
  upTo h.toNat (fun s (j : Nat) =>
    upTo w.toNat (fun s (i : Nat) =>
      lfbPixel s (x + i) (y + j) (buf (j * w.toNat + i))) s) s

end Thuos.Video
