/-
The calculator (kernel/gui/apps.c): the arithmetic behind its keys, and
the printer of its display. What else it draws is left out.

`long` is 32 bits wide, and the sums and products wrap. A division is the
processor's: on a divisor of 0, and where the quotient is no `long`, it
raises an exception, for which nothing in the kernel registers a handler,
so `isr_handler` (kernel/arch/x86/isr.c) halts the system. That is `none`
here.
-/
import Thuos.Lib.Numeral

namespace Thuos.Gui

open Numeral

-- =============================================================== the display

/-- `itoa_l`: the string it builds; `tmp` has room for 24 digits. -/
def itoaL (v : Int32) : List UInt8 :=
  let u : UInt32 := if v < 0 then (-(v + 1)).toUInt32 + 1 else v.toUInt32
  let tmp := if u = 0 then [0x30]
    else divided (fun d => 0x30 + UInt8.ofNat d) 10 24 u.toNat
  (if v < 0 then [0x2D] else []) ++ tmp.reverse

-- ================================================================== the keys

/-- The statics of the calculator. -/
structure Calc where
  acc : Int32
  cur : Int32
  op : UInt8
  fresh : Bool
  disp : Int32
  deriving DecidableEq, Repr

/-- `idiv`: the quotient, or the divide exception. -/
def idiv (a b : Int32) : Option Int32 :=
  if b = 0 ∨ (a = Int32.minValue ∧ b = -1) then none else some (a / b)

/-- `'+'`, `'-'`, `'*'`, `'/'` and `'='`. -/
def plusKey : UInt8 := 0x2B

def minusKey : UInt8 := 0x2D

def timesKey : UInt8 := 0x2A

def divideKey : UInt8 := 0x2F

def equalsKey : UInt8 := 0x3D

/-- `calc_apply`. -/
def calcApply (a : Int32) (op : UInt8) (b : Int32) : Option Int32 :=
  if op = plusKey then some (a + b)
  else if op = minusKey then some (a - b)
  else if op = timesKey then some (a * b)
  else if op = divideKey then if b ≠ 0 then idiv a b else some 0
  else some b

/-- `cc_op ? calc_apply(cc_acc, cc_op, cc_cur) : cc_cur`. -/
def Calc.result (s : Calc) : Option Int32 :=
  if s.op ≠ 0 then calcApply s.acc s.op s.cur else some s.cur

/-- The statics after `app_calc_open`. -/
def calcOpen : Calc := ⟨0, 0, 0, true, 0⟩

/-- `app_calc_key`. -/
def appCalcKey (s : Calc) (c : UInt8) : Option Calc :=
  if 0x30 ≤ c ∧ c ≤ 0x39 then
    let cur := (if s.fresh then 0 else s.cur) * 10 + Int32.ofNat (c.toNat - 48)
    some { s with cur := cur, fresh := false, disp := cur }
  else if c = plusKey ∨ c = minusKey ∨ c = timesKey ∨ c = divideKey then
    s.result.map fun acc =>
      { s with acc := acc, op := c, fresh := true, disp := acc }
  else if c = equalsKey ∨ c = 10 then
    s.result.map fun acc => ⟨acc, acc, 0, true, acc⟩
  else if c = 0x63 ∨ c = 0x43 then some calcOpen
  else some s

end Thuos.Gui
