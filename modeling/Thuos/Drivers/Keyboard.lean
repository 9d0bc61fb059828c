/-
The keyboard driver (kernel/drivers/keyboard.c): a ring of 128 characters
between the interrupt that fills it and the shell that drains it.

A character is a byte. `head` and `tail` are reduced modulo 128 by every
assignment, so natural numbers do for them. The scancode that the
interrupt reads from port 0x60 is an argument here.
-/
import Thuos.Lib.CStr

namespace Thuos.Drivers

def BUF_SIZE : Nat := 128

-- =============================================================== the tables

/-- The bytes of a literal. -/
def ascii (s : String) : List UInt8 := (CStr.ofString s).chars

/-- The entries of `scancode_map` up to the last that is not 0. -/
def scancodeMapEntries : List UInt8 :=
  [0, 27] ++ ascii "1234567890-=\x08"
    ++ ascii "\tqwertyuiop[]\n"
    ++ [0] ++ ascii "asdfghjkl;'`"
    ++ [0] ++ ascii "\\zxcvbnm,./" ++ [0]
    ++ ascii "*" ++ [0] ++ ascii " "

/-- The entries of `scancode_map_shift` up to the last that is not 0. -/
def scancodeMapShiftEntries : List UInt8 :=
  [0, 27] ++ ascii "!@#$%^&*()_+\x08"
    ++ ascii "\tQWERTYUIOP\x7b\x7d\n"
    ++ [0] ++ ascii "ASDFGHJKL:\x22~"
    ++ [0] ++ ascii "|ZXCVBNM<>?" ++ [0]
    ++ ascii "*" ++ [0] ++ ascii " "

def scancodeMap (scancode : UInt8) : UInt8 :=
  scancodeMapEntries.getD scancode.toNat 0

def scancodeMapShift (scancode : UInt8) : UInt8 :=
  scancodeMapShiftEntries.getD scancode.toNat 0

-- =============================================================== the driver

/-- The statics of keyboard.c. -/
structure Keyboard where
  buffer : Nat → UInt8
  head : Nat
  tail : Nat
  shiftDown : Bool

/-- The index of `buffer_push` behind `head`. -/
def Keyboard.next (s : Keyboard) : Nat := (s.head + 1) % BUF_SIZE

/-- `buffer_push`. -/
def bufferPush (s : Keyboard) (c : UInt8) : Keyboard :=
  if s.next ≠ s.tail then
    { s with buffer := Function.update s.buffer s.head c, head := s.next }
  else s

/-- `keyboard_inject`. -/
def keyboardInject (s : Keyboard) (c : UInt8) : Keyboard :=
  if c ≠ 0 then bufferPush s c else s

/-- `keyboard_callback`. -/
def keyboardCallback (s : Keyboard) (scancode : UInt8) : Keyboard :=
  if scancode = 0x2A ∨ scancode = 0x36 then { s with shiftDown := true }
  else if scancode = 0xAA ∨ scancode = 0xB6 then { s with shiftDown := false }
  else if scancode &&& 0x80 ≠ 0 then s
  else if scancode ≥ 128 then s
  else
    let c := if s.shiftDown then scancodeMapShift scancode
      else scancodeMap scancode
    if c ≠ 0 then bufferPush s c else s

/-- `keyboard_init`, but for the registration of the interrupt. -/
def keyboardInit (s : Keyboard) : Keyboard :=
  { s with head := 0, tail := 0, shiftDown := false }

/-- `keyboard_getchar`: `none` while it sleeps. -/
def keyboardGetchar (s : Keyboard) : Option (UInt8 × Keyboard) :=
  if s.head = s.tail then none
  else some (s.buffer s.tail, { s with tail := (s.tail + 1) % BUF_SIZE })

/-- `keyboard_haskey`. -/
def keyboardHaskey (s : Keyboard) : Nat := if s.head ≠ s.tail then 1 else 0

/-- `keyboard_trygetchar`. -/
def keyboardTrygetchar (s : Keyboard) : UInt8 × Keyboard :=
  if s.head = s.tail then (0, s)
  else (s.buffer s.tail, { s with tail := (s.tail + 1) % BUF_SIZE })

-- ============================================================== the machine

/-- A call, or an interrupt with the scancode at the port. A
`keyboard_getchar` that finds nothing is a turn of its loop. -/
inductive KeyOp
  | callback (scancode : UInt8)
  | inject (c : UInt8)
  | getchar
  | trygetchar
  deriving DecidableEq, Repr

/-- The step, and the character that a read returns. -/
def keyStep (s : Keyboard) : KeyOp → Keyboard × Option UInt8
  | .callback scancode => (keyboardCallback s scancode, none)
  | .inject c => (keyboardInject s c, none)
  | .getchar =>
      match keyboardGetchar s with
      | none => (s, none)
      | some (c, s') => (s', some c)
  | .trygetchar => ((keyboardTrygetchar s).2, some (keyboardTrygetchar s).1)

end Thuos.Drivers
