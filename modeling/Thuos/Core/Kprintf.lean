/-
Formatted output (kernel/core/kprintf.c): where a character goes, the log
that captures it, and the printers.

A character is a byte, and the consoles take it as a `char`. What a
printer prints is the list of the characters that it gives to `kputc`, in
order; `kprintf` reads its arguments from the list of the words and
strings that the caller passed, and is `none` where the caller passed
fewer or others than the format asks for.
-/
import Thuos.Gui.Drawn
import Thuos.Lib.CStr
import Thuos.Lib.Numeral
import Thuos.Video.Vga

namespace Thuos.Core

open Gui Video Numeral

-- ================================================================ the sinks

/-- Where characters go: the graphical console, with the plane of what it
has drawn, the text console, and the bytes sent over the serial line. -/
structure Sinks where
  gcon : Traced
  vga : Vga
  serialMirror : Bool
  serial : List UInt8

/-- The statics at boot, before a console is set up. -/
def Sinks.boot : Sinks where
  gcon :=
    { gcon := Gcon.boot
        { fbp := 0, W := 0, H := 0, pitchPx := 0, active := false
          word := fun _ => 0, log := [] }
      plane := fun _ _ => none }
  vga :=
    { vgaRow := 0, vgaCol := 0, vgaColor := 0, mem := fun _ => 0
      crtc := { index := 0, reg := fun _ => 0 } }
  serialMirror := true
  serial := []

/-- `serial_write_char`: the bytes sent. -/
def serialWriteChar (c : UInt8) : List UInt8 := if c = 10 then [13, c] else [c]

/-- `raw_putc`. -/
def rawPutc (glyph : Glyphs) (s : Sinks) (c : UInt8) : Sinks :=
  let s :=
    if s.gcon.gcon.active then { s with gcon := s.gcon.putc glyph c.toInt8 }
    else { s with vga := vgaPutc s.vga c.toInt8 }
  if s.serialMirror then { s with serial := s.serial ++ serialWriteChar c }
  else s

/-- What a character does to each sink. -/
theorem rawPutc_eq (glyph : Glyphs) (s : Sinks) (c : UInt8) :
    rawPutc glyph s c
      = { gcon := if s.gcon.gcon.active then s.gcon.putc glyph c.toInt8
            else s.gcon
          vga := if s.gcon.gcon.active then s.vga else vgaPutc s.vga c.toInt8
          serialMirror := s.serialMirror
          serial := if s.serialMirror then s.serial ++ serialWriteChar c
            else s.serial } := by
  unfold rawPutc
  cases hactive : s.gcon.gcon.active with
  | true =>
      cases s.serialMirror with
      | true => simp
      | false => simp
  | false =>
      cases s.serialMirror with
      | true => simp
      | false => simp

-- ================================================================== the log

def KLOG_CAP : Nat := 8192

/-- `klog_buf` and `klog_w`, and the sinks. -/
structure Kout where
  sinks : Sinks
  klogBuf : Nat → UInt8
  klogW : UInt32

/-- `kputc`. -/
def kputc (glyph : Glyphs) (k : Kout) (c : UInt8) : Kout where
  sinks := rawPutc glyph k.sinks c
  klogBuf := Function.update k.klogBuf (k.klogW.toNat % KLOG_CAP) c
  klogW := k.klogW + 1

/-- The characters that `klog_dump` replays, in order. -/
def klogText (k : Kout) : List UInt8 :=
  let total := k.klogW.toNat
  let start := if total > KLOG_CAP then total - KLOG_CAP else 0
  (List.range' start (total - start)).map fun i => k.klogBuf (i % KLOG_CAP)

/-- `klog_dump`. -/
def klogDump (glyph : Glyphs) (k : Kout) : Kout :=
  { k with sinks := (klogText k).foldl (rawPutc glyph) k.sinks }

/-- A text, character by character. -/
def kputsAll (glyph : Glyphs) (k : Kout) (text : List UInt8) : Kout :=
  text.foldl (kputc glyph) k

-- ============================================================= the printers

/-- `lower` and `upperd`. -/
def lowerDigits : List UInt8 := (CStr.ofString "0123456789abcdef").chars

def upperDigits : List UInt8 := (CStr.ofString "0123456789ABCDEF").chars

/-- `digits[d]`. -/
def digitChar (upper : Bool) (d : Nat) : UInt8 :=
  (if upper then upperDigits else lowerDigits).getD d 0

/-- `print_uint`: `buf` is filled from the last character on, and has room
for 32. -/
def printUint (value : UInt32) (base : Nat) (upper : Bool) (pad : Nat) :
    List UInt8 :=
  let buf :=
    if value = 0 then [0x30]
    else divided (digitChar upper) base 32 value.toNat
  let buf := buf ++ List.replicate (pad - buf.length) 0x30
  buf.reverse

/-- `print_int`. -/
def printInt (value : Int32) : List UInt8 :=
  if value < 0 then 0x2D :: printUint (UInt32.ofInt (-value.toInt)) 10 false 0
  else printUint value.toUInt32 10 false 0

-- ================================================================== kprintf

/-- An argument of `kprintf`: a word, or a pointer to a string. -/
inductive Arg
  | word (v : UInt32)
  | str (s : Option CStr)
  deriving DecidableEq, Repr

/-- The width of `%0N`, and the rest of the format. -/
def padDigits : Nat → List UInt8 → Nat × List UInt8
  | pad, c :: fmt =>
      if 0x30 ≤ c ∧ c ≤ 0x39 then padDigits (pad * 10 + (c.toNat - 0x30)) fmt
      else (pad, c :: fmt)
  | pad, [] => (pad, [])

/-- The optional zero-padded width behind a `%`. -/
def padWidth : List UInt8 → Nat × List UInt8
  | c :: fmt => if c = 0x30 then padDigits 0 fmt else (0, c :: fmt)
  | [] => (0, [])

/-- `(null)`. -/
def nullText : CStr := CStr.ofString "(null)"

/-- What the conversion `c` prints, and the arguments behind its own. -/
def convert (c : UInt8) (pad : Nat) (args : List Arg) :
    Option (List UInt8 × List Arg) :=
  if c = 0x73 then
    match args with
    | .str s :: args => some ((s.getD nullText).chars, args)
    | _ => none
  else if c = 0x63 then
    match args with
    | .word v :: args => some ([v.toUInt8], args)
    | _ => none
  else if c = 0x64 ∨ c = 0x69 then
    match args with
    | .word v :: args => some (printInt v.toInt32, args)
    | _ => none
  else if c = 0x75 then
    match args with
    | .word v :: args => some (printUint v 10 false pad, args)
    | _ => none
  else if c = 0x78 then
    match args with
    | .word v :: args => some (printUint v 16 false pad, args)
    | _ => none
  else if c = 0x58 then
    match args with
    | .word v :: args => some (printUint v 16 true pad, args)
    | _ => none
  else if c = 0x70 then
    match args with
    | .word v :: args => some ([0x30, 0x78] ++ printUint v 16 false 8, args)
    | _ => none
  else if c = 0x25 then some ([0x25], args)
  else some ([0x25, c], args)

/-- The loop over the format: each turn takes a character or more, so a
turn for each is enough. -/
def format : Nat → List UInt8 → List Arg → Option (List UInt8)
  | 0, _, _ => some []
  | _ + 1, [], _ => some []
  | n + 1, c :: fmt, args =>
      if c ≠ 0x25 then (format n fmt args).map (c :: ·)
      else
        match padWidth fmt with
        | (_, []) => some []
        | (pad, c :: fmt) =>
            (convert c pad args).bind fun (out, args) =>
              (format n fmt args).map (out ++ ·)

/-- `kprintf`. -/
def kprintf (fmt : CStr) (args : List Arg) : Option (List UInt8) :=
  format fmt.length fmt.chars args

end Thuos.Core
