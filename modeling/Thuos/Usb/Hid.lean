/-
HID boot reports (kernel/drivers/usb/xhci.c): the usage tables, and what
a keyboard or mouse report puts into the input buffers.
-/
import Mathlib

namespace Thuos.Usb

/-- A call of `keyboard_inject` or `mouse_inject`. -/
inductive Input where
  | key (c : Char)
  | mouse (dx dy : Int) (buttons : UInt8)
  deriving DecidableEq, Repr

-- =============================================================== the tables

/-- Usages with a character in `hid_map`; every other entry is 0. -/
def hidMapEntries : List (Nat × Char) :=
  [(0x04, 'a'), (0x05, 'b'), (0x06, 'c'), (0x07, 'd'), (0x08, 'e'),
    (0x09, 'f'), (0x0a, 'g'), (0x0b, 'h'), (0x0c, 'i'), (0x0d, 'j'),
    (0x0e, 'k'), (0x0f, 'l'), (0x10, 'm'), (0x11, 'n'), (0x12, 'o'),
    (0x13, 'p'), (0x14, 'q'), (0x15, 'r'), (0x16, 's'), (0x17, 't'),
    (0x18, 'u'), (0x19, 'v'), (0x1a, 'w'), (0x1b, 'x'), (0x1c, 'y'),
    (0x1d, 'z'), (0x1e, '1'), (0x1f, '2'), (0x20, '3'), (0x21, '4'),
    (0x22, '5'), (0x23, '6'), (0x24, '7'), (0x25, '8'), (0x26, '9'),
    (0x27, '0'), (0x28, '\n'), (0x29, '\x1b'), (0x2a, '\x08'),
    (0x2b, '\t'), (0x2c, ' '), (0x2d, '-'), (0x2e, '='), (0x2f, '['),
    (0x30, ']'), (0x31, '\x5c'), (0x33, ';'), (0x34, '\x27'),
    (0x35, '\x60'), (0x36, ','), (0x37, '.'), (0x38, '/')]

/-- Usages with a character in `hid_shift`. -/
def hidShiftEntries : List (Nat × Char) :=
  [(0x04, 'A'), (0x05, 'B'), (0x06, 'C'), (0x07, 'D'), (0x08, 'E'),
    (0x09, 'F'), (0x0a, 'G'), (0x0b, 'H'), (0x0c, 'I'), (0x0d, 'J'),
    (0x0e, 'K'), (0x0f, 'L'), (0x10, 'M'), (0x11, 'N'), (0x12, 'O'),
    (0x13, 'P'), (0x14, 'Q'), (0x15, 'R'), (0x16, 'S'), (0x17, 'T'),
    (0x18, 'U'), (0x19, 'V'), (0x1a, 'W'), (0x1b, 'X'), (0x1c, 'Y'),
    (0x1d, 'Z'), (0x1e, '!'), (0x1f, '@'), (0x20, '#'), (0x21, '$'),
    (0x22, '%'), (0x23, '^'), (0x24, '&'), (0x25, '*'), (0x26, '('),
    (0x27, ')'), (0x28, '\n'), (0x29, '\x1b'), (0x2a, '\x08'),
    (0x2b, '\t'), (0x2c, ' '), (0x2d, '_'), (0x2e, '+'), (0x2f, '\x7b'),
    (0x30, '\x7d'), (0x31, '|'), (0x33, ':'), (0x34, '\x22'),
    (0x35, '~'), (0x36, '<'), (0x37, '>'), (0x38, '?')]

/-- `hid_map[k]`, if it is not 0. -/
def hidMap (k : UInt8) : Option Char := hidMapEntries.lookup k.toNat

/-- `hid_shift[k]`, if it is not 0. -/
def hidShift (k : UInt8) : Option Char := hidShiftEntries.lookup k.toNat

-- ============================================================== the reports

/-- Byte `i` of an 8-byte buffer. -/
def reportByte (r : List UInt8) (i : Nat) : UInt8 := r.getD i 0

/-- Bytes 2 to 7, where a keyboard reports the keys that are down. -/
def keyBytes (r : List UInt8) : List UInt8 :=
  (List.range' 2 6).map (reportByte r)

/-- `in_prev`. -/
def inPrev (prev : List UInt8) (k : UInt8) : Bool := (keyBytes prev).contains k

/-- The characters of the keys that are down in `r` and were not in
`prev`. -/
def pressedKeys (prev r : List UInt8) : List Char :=
  let shift := reportByte r 0 &&& 0x22 ≠ 0
  (keyBytes r).filterMap fun k =>
    if k ≠ 0 ∧ k < 128 ∧ inPrev prev k = false then
      if shift then hidShift k else hidMap k
    else none

/-- `hid_handle` for the report `r`: the inputs injected, and `prev`
afterwards. -/
def hidReport (isKbd isMouse : Bool) (prev r : List UInt8) :
    List Input × List UInt8 :=
  if isKbd then
    ((pressedKeys prev r).map Input.key, (List.range 8).map (reportByte r))
  else if isMouse then
    ([.mouse (reportByte r 1).toInt8.toInt (reportByte r 2).toInt8.toInt
        (reportByte r 0)], prev)
  else ([], prev)

end Thuos.Usb
