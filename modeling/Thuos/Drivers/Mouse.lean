/-
The mouse driver (kernel/drivers/mouse.c): packets of three bytes from the
PS/2 port, and reports that the USB driver injects.

`int` values are `Int`: the counts that arrive are bytes or nine bits wide
(`mouse_inject` is called with an `int8_t` of the report), and a coordinate is
brought back to the screen after each, so nothing overflows on a screen of
less than 2^31 - 256 pixels a side. The byte that the interrupt reads from port 0x60 is
an argument here, and the commands that `mouse_init` sends to the
controller are left out. `v & 7` of an `int` is `v % 8`.
-/
import Thuos.Lib.Machine

namespace Thuos.Drivers

/-- The statics of mouse.c. -/
structure Mouse where
  gx : Int
  gy : Int
  gbtn : Int
  gdirty : Bool
  sw : Int
  sh : Int
  pkt : Nat → UInt8
  idx : Nat

/-- A coordinate, brought back to `0 .. n - 1`. -/
def clampTo (n v : Int) : Int :=
  let v := if v < 0 then 0 else v
  if v > n - 1 then n - 1 else v

/-- The end of `mouse_cb` and `mouse_inject`. -/
def mouseMoved (m : Mouse) (gx gy gbtn : Int) : Mouse :=
  { m with
    gx := clampTo m.sw gx, gy := clampTo m.sh gy, gbtn := gbtn
    gdirty := true }

/-- `mouse_cb`. -/
def mouseCb (m : Mouse) (b : UInt8) : Mouse :=
  -- resync: bit 3 of byte 0 is always 1
  if m.idx = 0 ∧ b &&& 0x08 = 0 then m
  else
    let m := { m with pkt := Function.update m.pkt m.idx b, idx := m.idx + 1 }
    if m.idx < 3 then m
    else
      let m := { m with idx := 0 }
      let dx : Int := (m.pkt 1).toNat - if m.pkt 0 &&& 0x10 ≠ 0 then 256 else 0
      let dy : Int := (m.pkt 2).toNat - if m.pkt 0 &&& 0x20 ≠ 0 then 256 else 0
      mouseMoved m (m.gx + dx) (m.gy - dy) (m.pkt 0 &&& 0x07).toNat

/-- `mouse_init`, but for the controller. -/
def mouseInit (m : Mouse) (screenW screenH : Int) : Mouse :=
  { m with
    sw := screenW, sh := screenH, gx := screenW.tdiv 2, gy := screenH.tdiv 2
    gbtn := 0, idx := 0, gdirty := true }

/-- `mouse_inject`. -/
def mouseInject (m : Mouse) (dx dy buttons : Int) : Mouse :=
  if m.sw ≤ 0 ∨ m.sh ≤ 0 then m
  else mouseMoved m (m.gx + dx) (m.gy + dy) (buttons % 8)

/-- `mouse_left`. -/
def mouseLeft (m : Mouse) : Int := m.gbtn % 2

/-- `mouse_take_event`. -/
def mouseTakeEvent (m : Mouse) : Mouse × Nat :=
  if ¬ m.gdirty then (m, 0) else ({ m with gdirty := false }, 1)

/-- An interrupt with the byte at the port, or a call. -/
inductive MouseOp
  | byte (b : UInt8)
  | inject (dx dy buttons : Int)
  | take
deriving DecidableEq

def mouseStep (m : Mouse) : MouseOp → Mouse
  | .byte b => mouseCb m b
  | .inject dx dy buttons => mouseInject m dx dy buttons
  | .take => (mouseTakeEvent m).1

end Thuos.Drivers
