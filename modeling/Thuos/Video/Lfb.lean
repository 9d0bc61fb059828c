/-
The linear framebuffer (kernel/drivers/lfb.c): taking over the one that
the boot loader set up, and drawing into it.

`int` values are `Int`; the conversions from `uint32_t` reinterpret the
word. The framebuffer is an array of words, and beside it stands a log of
the pixels that have been read or written, as column and row, which the
code does not have. Glyphs come from a table read at boot, so the
functions that draw text take it as a parameter.
-/
import Thuos.Lib.Loop
import Thuos.Mm.Vmm

namespace Thuos.Video

open Loop Mm

/-- `(unsigned)v`. -/
def unsigned (v : Int) : Int := v % 2 ^ 32

/-- `vmm_lfb_capacity`. -/
def vmmLfbCapacity : UInt32 := UInt32.ofNat (VMM_LFB_NPTS * 4 * 1024 * 1024)

/-- The statics of lfb.c, the words of the framebuffer, and the log. -/
structure Lfb where
  fbp : UInt32
  W : Int
  H : Int
  pitchPx : Int
  active : Bool
  word : Int → UInt32
  log : List (Int × Int)

namespace Lfb

/-- `fbp[row * pitch_px + col]`. -/
def read (s : Lfb) (col row : Int) : UInt32 :=
  s.word (row * s.pitchPx + col)

/-- The access to a pixel. -/
def touch (s : Lfb) (col row : Int) : Lfb :=
  { s with log := s.log ++ [(col, row)] }

/-- `fbp[row * pitch_px + col] = rgb`. -/
def write (s : Lfb) (col row : Int) (rgb : UInt32) : Lfb :=
  { s.touch col row with
    word := Function.update s.word (row * s.pitchPx + col) rgb }

end Lfb

/-- `lfb_pixel`: a negative coordinate is large when it is unsigned. -/
def lfbPixel (s : Lfb) (x y : Int) (rgb : UInt32) : Lfb :=
  if unsigned x < unsigned s.W ∧ unsigned y < unsigned s.H then
    s.write x y rgb
  else s

/-- `int n = W * H`: the product wraps. -/
def Lfb.area (s : Lfb) : Int := (Int32.ofInt (s.W * s.H)).toInt

/-- `lfb_clear`: the words in a row, whatever the pitch. -/
def lfbClear (s : Lfb) (rgb : UInt32) : Lfb :=
  upTo s.area.toNat (fun s (i : Nat) =>
    { s.touch (i % s.pitchPx) (i / s.pitchPx) with
      word := Function.update s.word i rgb }) s

-- ============================================================= taking over

/-- The checks at the start of `lfb_init_fb`. -/
def lfbRejects (addr pitchBytes w h bpp : UInt32) : Bool :=
  addr = 0 || bpp ≠ 32 || w = 0 || h = 0 || pitchBytes < w * 4

/-- The number of rows after the clamp. -/
def lfbRows (pitchBytes h : UInt32) : UInt32 :=
  let cap := vmmLfbCapacity
  let need := pitchBytes * h + 0x1000
  if need > cap then (cap - 0x1000) / pitchBytes else h

/-- The number of bytes that `lfb_init_fb` asks `vmm_map_lfb` for. -/
def lfbBytes (pitchBytes h : UInt32) : UInt32 :=
  pitchBytes * lfbRows pitchBytes h + 0x1000

/-- `lfb_init_fb`. -/
def lfbInitFb (L : VmmLayout) (v : Vmm) (s : Lfb)
    (addr pitchBytes w h bpp : UInt32) : Vmm × Lfb × Nat :=
  if lfbRejects addr pitchBytes w h bpp then (v, s, 0)
  else
    -- clamp: never draw past the map
    let rows := lfbRows pitchBytes h
    if rows = 0 then (v, s, 0)
    else
      let (v, ok) := vmmMapLfb L v addr.toNat (lfbBytes pitchBytes h).toNat
      if ok = 0 then (v, s, 0)
      else
        let s :=
          { s with
            fbp := addr, W := w.toInt32.toInt, H := rows.toInt32.toInt
            pitchPx := (pitchBytes / 4).toInt32.toInt, active := true }
        (v, lfbClear s 0x000000, 1)

-- ================================================================= drawing

/-- `lfb_fill`, clipped to the framebuffer. -/
def lfbFill (s : Lfb) (x y w h : Int) (rgb : UInt32) : Lfb :=
  let (x, w) := if x < 0 then (0, w + x) else (x, w)
  let (y, h) := if y < 0 then (0, h + y) else (y, h)
  let w := if x + w > s.W then s.W - x else w
  let h := if y + h > s.H then s.H - y else h
  upTo h.toNat (fun s (j : Nat) =>
    upTo w.toNat (fun s (i : Nat) => s.write (x + i) (y + j) rgb) s) s

/-- `lfb_char`, with the 16 rows of the glyph: a negative background is
not drawn. -/
def lfbChar (glyph : UInt8 → Nat → UInt8) (s : Lfb) (x y : Int) (ch : Int8)
    (fg : UInt32) (bg : Int) (scale : Int) : Lfb :=
  upTo 16 (fun s (r : Nat) =>
    let bits := glyph ch.toUInt8 r
    upTo 8 (fun s (c : Nat) =>
      if bits &&& (0x80 >>> UInt8.ofNat c) ≠ 0 then
        lfbFill s (x + c * scale) (y + r * scale) scale scale fg
      else if bg ≥ 0 then
        lfbFill s (x + c * scale) (y + r * scale) scale scale
          (UInt32.ofInt bg)
      else s) s) s

/-- `lfb_scroll_up`: the copy is not clipped. -/
def lfbScrollUp (s : Lfb) (x y w h dy : Int) (fill : UInt32) : Lfb :=
  let s := upTo (h - dy).toNat (fun s (j : Nat) =>
    upTo w.toNat (fun s (i : Nat) =>
      let v := s.read (x + i) (y + j + dy)
      (s.touch (x + i) (y + j + dy)).write (x + i) (y + j) v) s) s
  lfbFill s x (y + h - dy) w dy fill

end Thuos.Video
