/-
The VGA text console (kernel/drivers/vga.c), 80 by 25 cells.

A cell is a 16-bit word, the character in its low byte and the colours in
its high byte; the screen is 2000 such words at a fixed address, here the
array `mem` of all words from there on. `char` is signed on this target,
so a character is an `Int8`. The position of the hardware cursor lies in
two registers behind a pair of ports.
-/
import Thuos.Lib.Loop
import Thuos.Lib.Machine

namespace Thuos.Video

open Loop

def VGA_WIDTH : Nat := 80

def VGA_HEIGHT : Nat := 25

def VGA_BLACK : UInt8 := 0

def VGA_LIGHT_GREY : UInt8 := 7

def VGA_RED : UInt8 := 4

def VGA_WHITE : UInt8 := 15

/-- The registers behind the ports 0x3D4 (index) and 0x3D5 (data). -/
structure Crtc where
  index : UInt8
  reg : UInt8 → UInt8

/-- The statics of vga.c, the words at `VGA_MEMORY` and the registers. -/
structure Vga where
  vgaRow : Nat
  vgaCol : Nat
  vgaColor : UInt8
  mem : Nat → UInt16
  crtc : Crtc

/-- `outb`, on the two ports. -/
def outb (s : Vga) (port : Nat) (v : UInt8) : Vga :=
  if port = 0x3D4 then { s with crtc := { s.crtc with index := v } }
  else if port = 0x3D5 then
    { s with
      crtc := { s.crtc with
        reg := Function.update s.crtc.reg s.crtc.index v } }
  else s

/-- `vga_entry`: the conversion of `c` extends its sign. -/
def vgaEntry (c : Int8) (color : UInt8) : UInt16 :=
  c.toInt16.toUInt16 ||| color.toUInt16 <<< 8

/-- `vga_move_cursor`. -/
def vgaMoveCursor (s : Vga) : Vga :=
  let pos := UInt16.ofNat (s.vgaRow * VGA_WIDTH + s.vgaCol)
  let s := outb s 0x3D4 0x0F
  let s := outb s 0x3D5 (pos &&& 0xFF).toUInt8
  let s := outb s 0x3D4 0x0E
  outb s 0x3D5 ((pos >>> 8) &&& 0xFF).toUInt8

/-- `vga_set_color`. -/
def vgaSetColor (s : Vga) (fg bg : UInt8) : Vga :=
  { s with vgaColor := fg ||| bg <<< 4 }

/-- `vga_clear`. -/
def vgaClear (s : Vga) : Vga :=
  let mem := upTo VGA_HEIGHT (fun mem y =>
    upTo VGA_WIDTH (fun mem x =>
      Function.update mem (y * VGA_WIDTH + x) (vgaEntry 0x20 s.vgaColor))
    mem) s.mem
  vgaMoveCursor { s with mem := mem, vgaRow := 0, vgaCol := 0 }

/-- `vga_init`. -/
def vgaInit (s : Vga) : Vga :=
  vgaClear (vgaSetColor s VGA_LIGHT_GREY VGA_BLACK)

/-- `vga_scroll`: turn `i` of the first loop is the row `y = i + 1`. -/
def vgaScroll (s : Vga) : Vga :=
  let mem := upTo (VGA_HEIGHT - 1) (fun mem i =>
    upTo VGA_WIDTH (fun mem x =>
      Function.update mem (i * VGA_WIDTH + x)
        (mem ((i + 1) * VGA_WIDTH + x)))
    mem) s.mem
  let mem := upTo VGA_WIDTH (fun mem x =>
    Function.update mem ((VGA_HEIGHT - 1) * VGA_WIDTH + x)
      (vgaEntry 0x20 s.vgaColor)) mem
  { s with mem := mem, vgaRow := VGA_HEIGHT - 1 }

/-- `vga_putc`. -/
def vgaPutc (s : Vga) (c : Int8) : Vga :=
  let s :=
    if c = 10 then { s with vgaCol := 0, vgaRow := s.vgaRow + 1 }
    else if c = 13 then { s with vgaCol := 0 }
    else if c = 9 then
      { s with vgaCol := (UInt32.ofNat (s.vgaCol + 4) &&& ~~~3).toNat }
    else if c = 8 then
      if 0 < s.vgaCol then
        { s with
          vgaCol := s.vgaCol - 1
          mem := Function.update s.mem
            (s.vgaRow * VGA_WIDTH + (s.vgaCol - 1))
            (vgaEntry 0x20 s.vgaColor) }
      else s
    else
      { s with
        mem := Function.update s.mem (s.vgaRow * VGA_WIDTH + s.vgaCol)
          (vgaEntry c s.vgaColor)
        vgaCol := s.vgaCol + 1 }
  let s :=
    if s.vgaCol ≥ VGA_WIDTH then
      { s with vgaCol := 0, vgaRow := s.vgaRow + 1 }
    else s
  let s := if s.vgaRow ≥ VGA_HEIGHT then vgaScroll s else s
  vgaMoveCursor s

-- ============================================================ the machine

/-- A call of the console. A byte is passed as a `char`. -/
inductive VgaOp
  | putc (b : UInt8)
  | setColor (fg bg : UInt8)
  deriving DecidableEq, Repr

def vgaStep (s : Vga) : VgaOp → Vga
  | .putc b => vgaPutc s b.toInt8
  | .setColor fg bg => vgaSetColor s fg bg

end Thuos.Video
