/-
The calculator as it is on the screen (kernel/gui/apps.c): its display, its
buttons, and what clicks do. The arithmetic behind the keys is
`Thuos.Gui.Calc`; where it raises an exception the run ends.
-/
import Thuos.Gui.Calc
import Thuos.Gui.Files

namespace Thuos.Gui

open Loop Video

def CARD : UInt32 := 0x121a2b

def GOOD : UInt32 := 0x47d18a

/-- The statics of the calculator, and the framebuffer. -/
structure CalcPanel where
  ccX : Int
  ccY : Int
  ccW : Int
  ccH : Int
  ccBx : Int
  ccBy : Int
  ccCw : Int
  ccCh : Int
  ccGap : Int
  keys : Calc
  lfb : Lfb

/-- `CALC_LBL`: each label is one character. -/
def CALC_LBL : List (List UInt8) :=
  [[0x37, 0x38, 0x39, 0x2F], [0x34, 0x35, 0x36, 0x2A],
    [0x31, 0x32, 0x33, 0x2D], [0x30, 0x3D, 0x2B, 0x43]]

def calcLabel (r c : Nat) : UInt8 := (CALC_LBL.getD r []).getD c 0

-- =============================================================== the drawing

section Drawing

variable (glyph : UInt8 → Nat → UInt8)

/-- `calc_draw_display`. -/
def calcDrawDisplay (p : CalcPanel) (s : Lfb) : Lfb :=
  let s := lfbRoundFill s (p.ccX + 14) (p.ccY + 14) (p.ccW - 28) 56 8 0x05080f
  let buf := textOf (itoaL p.keys.disp)
  lfbText glyph s (p.ccX + p.ccW - 28 - buf.length * 16) (p.ccY + 30) buf GOOD
    (-1) 2

/-- `bx` and `by` of a button. -/
def CalcPanel.buttonX (p : CalcPanel) (c : Nat) : Int :=
  p.ccBx + c * (p.ccCw + p.ccGap)

def CalcPanel.buttonY (p : CalcPanel) (r : Nat) : Int :=
  p.ccBy + r * (p.ccCh + p.ccGap)

/-- A turn of the loops of `calc_draw_buttons`. -/
def drawButton (p : CalcPanel) (s : Lfb) (r c : Nat) : Lfb :=
  let bg : UInt32 := if c = 3 then 0x2a3a5e else CARD2
  let bg : UInt32 := if r = 3 ∧ c = 1 then ACCENT else bg
  let bg : UInt32 := if r = 3 ∧ c = 3 then 0x5a2a3a else bg
  let s := lfbRoundFill s (p.buttonX c) (p.buttonY r) p.ccCw p.ccCh 8 bg
  let fg : UInt32 := if r = 3 ∧ c = 1 then 0x06121f else TXT_HI
  lfbText glyph s (p.buttonX c + (p.ccCw - 16).tdiv 2)
    (p.buttonY r + (p.ccCh - 32).tdiv 2) (textOf [calcLabel r c]) fg (-1) 2

/-- `calc_draw_buttons`. -/
def calcDrawButtons (p : CalcPanel) (s : Lfb) : Lfb :=
  upTo 4 (fun s r => upTo 4 (fun s c => drawButton glyph p s r c) s) s

/-- What `app_calc_open` stores. -/
def placeCalc (p : CalcPanel) (x y w h : Int) : CalcPanel :=
  let ccW := 300
  let ccH := 400
  let ccX := x + (w - ccW).tdiv 2
  let ccY := y + (h - ccH).tdiv 2
  let ccY := if ccY < y + 12 then y + 12 else ccY
  let ccGap := 10
  { ccX := ccX
    ccY := ccY
    ccW := ccW
    ccH := ccH
    ccBx := ccX + 14
    ccBy := ccY + 84
    ccCw := (ccW - 28 - 3 * ccGap).tdiv 4
    ccCh := (ccH - 84 - 14 - 3 * ccGap).tdiv 4
    ccGap := ccGap
    keys := calcOpen
    lfb := p.lfb }

/-- `app_calc_open`. -/
def appCalcOpen (p : CalcPanel) (x y w h : Int) : CalcPanel :=
  let p := placeCalc p x y w h
  let s := lfbFill p.lfb x y w h PANEL_BG
  let s := lfbRoundFill s p.ccX p.ccY p.ccW p.ccH 14 CARD
  let s := lfbText glyph s (p.ccX + 14) (p.ccY - 26)
    (CStr.ofString "Calculator") TXT_LO (-1) 1
  { p with lfb := calcDrawButtons glyph p (calcDrawDisplay glyph p s) }

-- ================================================================ the events

/-- The keys on which `app_calc_key` does not return early. -/
def IsCalcKey (c : UInt8) : Prop :=
  (0x30 ≤ c ∧ c ≤ 0x39)
    ∨ (c = plusKey ∨ c = minusKey ∨ c = timesKey ∨ c = divideKey)
    ∨ (c = equalsKey ∨ c = 10) ∨ c = 0x63 ∨ c = 0x43

instance (c : UInt8) : Decidable (IsCalcKey c) :=
  inferInstanceAs (Decidable (_ ∨ _))

/-- `app_calc_key`, with what it draws. -/
def calcKey (p : CalcPanel) (c : UInt8) : Option CalcPanel :=
  (appCalcKey p.keys c).map fun keys =>
    let p := { p with keys := keys }
    if IsCalcKey c then { p with lfb := calcDrawDisplay glyph p p.lfb } else p

def onButton (p : CalcPanel) (mx my : Int) (r c : Nat) : Bool :=
  mx ≥ p.buttonX c ∧ mx < p.buttonX c + p.ccCw
    ∧ my ≥ p.buttonY r ∧ my < p.buttonY r + p.ccCh

/-- The loops of `app_calc_click`: the first button that is hit. -/
def buttonAt (p : CalcPanel) (mx my : Int) : Option (Nat × Nat) :=
  ((List.range 4).flatMap fun r => (List.range 4).map fun c => (r, c)).find?
    fun rc => onButton p mx my rc.1 rc.2

/-- `app_calc_click`. -/
def appCalcClick (p : CalcPanel) (mx my : Int) : Option CalcPanel :=
  match buttonAt p mx my with
  | some rc =>
      (calcKey glyph p (calcLabel rc.1 rc.2)).map fun p =>
        { p with lfb := calcDrawButtons glyph p p.lfb }
  | none => some p

/-- What the desktop passes on. -/
inductive CalcOp
  | key (c : UInt8)
  | click (mx my : Int)

def calcStep (p : CalcPanel) : CalcOp → Option CalcPanel
  | .key c => calcKey glyph p c
  | .click mx my => appCalcClick glyph p mx my

end Drawing

end Thuos.Gui
