/-
The loop of the desktop (kernel/gui/desktop.c), and the cursor.

`desktop_run` goes on for ever, and interrupts come in between: keys, bytes
of the mouse, ticks of the timer. A turn is an interrupt, a report that
`usb_poll` delivers, or a piece of the loop that reads what the interrupts
write at most once. Two coordinates are two readings, in the order of the
parameter `yFirst`, since C leaves the order to the compiler.

The applications read the timer but neither the mouse nor the keyboard, so
they are a function of the ticks. The log of the framebuffer is that of the
desktop: what the cursor touches does not get into it.
-/
import Thuos.Drivers.Keyboard
import Thuos.Drivers.Mouse
import Thuos.Gui.Desktop

namespace Thuos.Gui

open Loop Video Drivers

-- =============================================================== the cursor

def CUR_W : Int := 12

def CUR_H : Int := 19

/-- `arrow`. -/
def arrow : List (List UInt8) :=
  [ascii "o...........", ascii "oo..........", ascii "oXo.........",
    ascii "oXXo........", ascii "oXXXo.......", ascii "oXXXXo......",
    ascii "oXXXXXo.....", ascii "oXXXXXXo....", ascii "oXXXXXXXo...",
    ascii "oXXXXXXXXo..", ascii "oXXXXXXXXXo.", ascii "oXXXXXoooooo",
    ascii "oXXoXXo.....", ascii "oXo.oXXo....", ascii "oo..oXXo....",
    ascii "o....oXXo...", ascii ".....oXXo...", ascii "......oo....",
    ascii "............"]

/-- `cur_x`, `cur_y`, `cur_vis` and `cur_save`. -/
structure Cursor where
  curX : Int
  curY : Int
  curVis : Bool
  curSave : Nat → UInt32

/-- The loops of `cursor_show`. A row ends at its terminator. -/
def drawArrow (x y : Int) (s : Lfb) : Lfb :=
  upTo CUR_H.toNat (fun s (r : Nat) =>
    let row := arrow.getD r []
    upTo (min CUR_W.toNat row.length) (fun s (c : Nat) =>
      let p := row.getD c 0
      if p = 0x58 then lfbPixel s (x + c) (y + r) 0xffffff
      else if p = 0x6F then lfbPixel s (x + c) (y + r) 0x0a0f1a
      else s) s) s

/-- `cursor_hide`. -/
def cursorHide (c : Cursor) (s : Lfb) : Cursor × Lfb :=
  if c.curVis then
    ({ c with curVis := false },
      lfbBlitPut s c.curX c.curY CUR_W CUR_H c.curSave)
  else (c, s)

/-- `cursor_show`. -/
def cursorShow (x y : Int) (c : Cursor) (s : Lfb) : Cursor × Lfb :=
  let (c, s) := if c.curVis then cursorHide c s else (c, s)
  let (s, save) := lfbBlitGet s x y CUR_W CUR_H c.curSave
  ({ c with curX := x, curY := y, curVis := true, curSave := save },
    drawArrow x y s)

-- ============================================================== the machine

/-- The places where `desktop_run` reads both coordinates. -/
inductive Site
  | click
  | panel
  | motion
  | cursor
deriving DecidableEq

/-- The pieces of the loop. -/
inductive Pc
  | hlt
  | usb
  | clock
  | keys
  | key
  | mouse
  | button
  /-- reads a coordinate -/
  | first (site : Site)
  /-- has read `v`, and reads the other one -/
  | second (site : Site) (v : Int)
  | done
deriving DecidableEq

/-- The desktop, what the interrupts write, and the locals of
`desktop_run`. -/
structure Run (α : Type*) where
  desk : Desk α
  cursor : Cursor
  mouse : Mouse
  kbd : Keyboard
  ticks : UInt32
  evt : Bool
  l : Int
  prevl : Int
  lastSec : UInt32
  pc : Pc

/-- An interrupt, with the byte at the port; a report that `usb_poll`
delivers; or a piece of the loop. -/
inductive Turn
  | key (scancode : UInt8)
  | mouse (b : UInt8)
  | tick
  | usbKey (c : UInt8)
  | usbMouse (dx dy buttons : Int)
  | go
deriving DecidableEq

section Loop

variable {α : Type*} (glyph : UInt8 → Nat → UInt8) (k : UInt32 → Apps α)
variable (hz : UInt32) (yFirst : Bool)

/-- `pit_seconds`, at a frequency of `hz`. -/
def pitSeconds (ticks : UInt32) : UInt32 := if hz ≠ 0 then ticks / hz else 0

namespace Run

/-- What a function does to the cursor and the framebuffer. -/
def withCursor (f : Cursor → Lfb → Cursor × Lfb) (r : Run α) : Run α :=
  let (c, s) := f r.cursor r.desk.lfb
  { r with
    cursor := c, desk := { r.desk with lfb := s.withLog r.desk.lfb.log } }

def goTo (pc : Pc) (r : Run α) : Run α := { r with pc := pc }

def withMouse (mouse : Mouse) (r : Run α) : Run α := { r with mouse := mouse }

/-- `int evt = 0`. -/
def quiet (r : Run α) : Run α := { r with evt := false }

/-- `if (!evt) { cursor_hide(); evt = 1; }`. -/
def raise (r : Run α) : Run α :=
  if ¬ r.evt then { r.withCursor cursorHide with evt := true } else r

/-- What is done at a point. With `shown` false no cursor is shown. -/
def reach (shown : Bool) (site : Site) (x y : Int) (r : Run α) : Run α :=
  match site with
  | .click =>
      { r with
        desk := handleClick glyph (k r.ticks) x y r.desk
        prevl := r.l, pc := .done }
  | .panel =>
      if inPanel r.desk x y then r.goTo (.first .motion)
      else { r with prevl := r.l, pc := .done }
  | .motion =>
      { r with
        desk := (k r.ticks).paintMotion x y r.desk
        prevl := r.l, pc := .done }
  | .cursor =>
      let r := if shown then r.withCursor (cursorShow x y) else r
      r.quiet.goTo .hlt

/-- A piece of the loop. -/
def go (shown : Bool) (r : Run α) : Run α :=
  match r.pc with
  | .hlt => r.goTo .usb
  | .usb =>
      let s := pitSeconds hz r.ticks
      if s ≠ r.lastSec then { r.quiet.raise with lastSec := s, pc := .clock }
      else r.quiet.goTo .keys
  | .clock =>
      { r with
        desk := drawClock glyph (pitSeconds hz r.ticks) r.desk, pc := .keys }
  | .keys =>
      if keyboardHaskey r.kbd ≠ 0 then r.raise.goTo .key else r.goTo .mouse
  | .key =>
      let (c, kbd) := keyboardTrygetchar r.kbd
      { r with
        kbd := kbd, desk := routeKey glyph (k r.ticks) c r.desk, pc := .keys }
  | .mouse =>
      let (mouse, got) := mouseTakeEvent r.mouse
      if got ≠ 0 then (r.withMouse mouse).raise.goTo .button
      else (r.withMouse mouse).goTo .done
  | .button =>
      let r : Run α := { r with l := mouseLeft r.mouse }
      if r.l ≠ 0 ∧ r.prevl = 0 then r.goTo (.first .click)
      else if r.l ≠ 0 ∧ r.desk.gApp = .paint then r.goTo (.first .panel)
      else { r with prevl := r.l, pc := .done }
  | .first site =>
      r.goTo (.second site (if yFirst then r.mouse.gy else r.mouse.gx))
  | .second site v =>
      if yFirst then reach glyph k shown site r.mouse.gx v r
      else reach glyph k shown site v r.mouse.gy r
  | .done =>
      if r.evt then r.goTo (.first .cursor) else r.goTo .hlt

/-- A turn. -/
def step (shown : Bool) (r : Run α) : Turn → Run α
  | .key scancode => { r with kbd := keyboardCallback r.kbd scancode }
  | .mouse b => { r with mouse := mouseCb r.mouse b }
  | .tick => { r with ticks := r.ticks + 1 }
  | .usbKey c =>
      if r.pc = .usb then { r with kbd := keyboardInject r.kbd c } else r
  | .usbMouse dx dy buttons =>
      if r.pc = .usb then { r with mouse := mouseInject r.mouse dx dy buttons }
      else r
  | .go => r.go glyph k hz yFirst shown

/-- `desktop_run`, up to the first `cursor_show`. -/
def start (d : Desk α) (mouse : Mouse) (kbd : Keyboard) (ticks : UInt32) :
    Run α where
  desk :=
    desktopOpenApp glyph (k ticks) .terminal
      { d with W := d.lfb.W, H := d.lfb.H }
  cursor := ⟨0, 0, false, fun _ => 0⟩
  mouse := mouseInit mouse d.lfb.W d.lfb.H
  kbd := kbd
  ticks := ticks
  evt := false
  l := 0
  prevl := 0
  lastSec := 0xffffffff
  pc := .first .cursor

end Run

end Loop

end Thuos.Gui
