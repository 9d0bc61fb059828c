/-
The desktop (kernel/gui/desktop.c): its chrome, and where keys and clicks
go.

The applications, the shell and the console are other modules. The desktop
calls them, and they may call it back: the shell opens applications, and
Settings changes the theme. So their functions are parameters that take the
whole state of the desktop (`Apps`); what they keep themselves is the field
`rest`. The cursor is not in this state, since they cannot reach it.

`gfx_glyph` is a parameter, and the seconds of the timer are an argument.
-/
import Thuos.Video.Blit

namespace Thuos.Gui

open Loop Video

/-- `APP_TERMINAL` and so on. -/
inductive App
  | terminal
  | files
  | notes
  | calculator
  | paint
  | settings
deriving DecidableEq, Repr

/-- The applications, in the order of their numbers. -/
def App.all : List App :=
  [.terminal, .files, .notes, .calculator, .paint, .settings]

def APPNAME : App → CStr
  | .terminal => CStr.ofString "THU Terminal"
  | .files => CStr.ofString "Files"
  | .notes => CStr.ofString "Notes"
  | .calculator => CStr.ofString "Calculator"
  | .paint => CStr.ofString "Paint"
  | .settings => CStr.ofString "Settings"

def TILE : App → UInt32
  | .terminal => 0x2d3650
  | .files => 0x3d8bdc
  | .notes => 0x2bb5a0
  | .calculator => 0xff9f1c
  | .paint => 0xff6f91
  | .settings => 0x7c8aa0

/-- `ds`, `dgap` and `dn`, which nothing changes. -/
def ds : Int := 52

def dgap : Int := 18

def dn : Nat := 6

/-- The statics of desktop.c but for the cursor, the framebuffer, and what
the applications keep. -/
structure Desk (α : Type*) where
  W : Int
  H : Int
  /-- the window -/
  wx : Int
  wy : Int
  ww : Int
  wh : Int
  th : Int
  /-- the content panel -/
  px : Int
  py : Int
  pw : Int
  ph : Int
  /-- the console of the terminal -/
  gcx : Int
  gcy : Int
  gcols : Int
  grows : Int
  /-- the dock -/
  dbx : Int
  dby : Int
  dbw : Int
  dbh : Int
  gApp : App
  /-- the theme -/
  gWallTop : UInt32
  gWallBot : UInt32
  gAccent : UInt32
  lfb : Lfb
  rest : α

-- ==================================================================== icons

/-- `lfb_line`, with as many turns as it takes. -/
def lineDrawn (s : Lfb) (x0 y0 x1 y1 : Int) (rgb : UInt32) : Lfb :=
  let turns := max (x1 - x0).natAbs (y1 - y0).natAbs + 1
  ((lfbLine turns s x0 y0 x1 y1 rgb).map Prod.fst).getD s

/-- The cases of `icon_glyph`; `left` and `top` are `bx` and `by`. -/
def iconTerminal (s : Lfb) (left top size : Int) : Lfb :=
  let s := lfbRoundFill s left top size size 4 0x0a1020
  let g := 0x5be58a
  let my := top + size.tdiv 2
  let s := lineDrawn s (left + 6) (top + 7) (left + 6 + 8) my g
  let s := lineDrawn s (left + 6) (top + 8) (left + 6 + 8) (my + 1) g
  let s := lineDrawn s (left + 6) (top + size - 7) (left + 6 + 8) my g
  let s := lineDrawn s (left + 6) (top + size - 8) (left + 6 + 8) (my - 1) g
  lfbFill s (left + size.tdiv 2) (top + size - 10) 10 2 g

def iconFiles (s : Lfb) (left top size : Int) : Lfb :=
  let s := lfbRoundFill s left (top + 5) ((size * 5).tdiv 9) 6 2 0xdbe7f7
  let s := lfbRoundFill s left (top + 8) size (size - 11) 3 0xffffff
  lfbRoundFill s left (top + size.tdiv 2) size (size.tdiv 2 - 3) 3 0xeaf2ff

def iconNotes (s : Lfb) (left top size : Int) : Lfb :=
  let s := lfbRoundFill s (left + 2) top (size - 4) size 3 0xffffff
  upTo 4 (fun s (i : Nat) =>
    lfbFill s (left + 7) (top + 7 + i * 6)
      (size - 14 - if i = 3 then 8 else 0) 2 0x9fb3d8) s

def iconCalc (s : Lfb) (left top size : Int) : Lfb :=
  let s := lfbRoundFill s left top size size 4 0xffffff
  let s := lfbFill s (left + 4) (top + 4) (size - 8) 8 0x2d3650
  let g := 3
  let n := 3
  let bs := (size - 8 - (n - 1) * g).tdiv n
  upTo 3 (fun s (r : Nat) =>
    upTo 3 (fun s (c : Nat) =>
      lfbRoundFill s (left + 4 + c * (bs + g)) (top + 16 + r * (bs + g)) bs bs
        1 (if r = 2 ∧ c = 2 then 0xff9f1c else 0x2d3650)) s) s

def iconPaint (s : Lfb) (left top size : Int) : Lfb :=
  let s := lfbRoundFill s left top size size (size.tdiv 2) 0xffffff
  let near := size.tdiv 3
  let far := (2 * size).tdiv 3
  let s := lfbDisc s (left + near) (top + near) 3 0xff5f56
  let s := lfbDisc s (left + far) (top + near) 3 0xffbd2e
  let s := lfbDisc s (left + near) (top + far) 3 0x27c93f
  lfbDisc s (left + far) (top + far) 3 0x6cc7ff

def iconSettings (s : Lfb) (left top size : Int) : Lfb :=
  let kx := [left + size - 9, left + 8, left + size.tdiv 2]
  upTo 3 (fun s (i : Nat) =>
    let yy := top + 5 + i * (size - 8).tdiv 2
    let s := lfbRoundFill s left yy size 4 2 0xe7ecf5
    let s := lfbDisc s (kx.getD i 0) (yy + 2) 4 0xffffff
    lfbDisc s (kx.getD i 0) (yy + 2) 2 0x7c8aa0) s

/-- `icon_glyph`. -/
def iconGlyph (s : Lfb) (app : App) (left top size : Int) : Lfb :=
  match app with
  | .terminal => iconTerminal s left top size
  | .files => iconFiles s left top size
  | .notes => iconNotes s left top size
  | .calculator => iconCalc s left top size
  | .paint => iconPaint s left top size
  | .settings => iconSettings s left top size

-- =================================================================== chrome

section Chrome

variable {α : Type*} (glyph : UInt8 → Nat → UInt8)

/-- One application on the dock. -/
def drawTile (d : Desk α) (s : Lfb) (i : Nat) : Lfb :=
  let app := App.all.getD i .terminal
  let ax := d.dbx + 14 + i * (ds + dgap)
  let ay := d.dby + 10
  let pad := 11
  let s := lfbRoundFill s ax ay ds ds 13 (TILE app)
  let s := iconGlyph s app (ax + pad) (ay + pad) (ds - 2 * pad)
  if app = d.gApp then
    lfbDisc s (ax + ds.tdiv 2) (d.dby + d.dbh - 5) 2 d.gAccent
  else s

/-- `draw_dock`. -/
def drawDock (d : Desk α) : Desk α :=
  let s := lfbRoundFill d.lfb (d.dbx + 4) (d.dby + 6) d.dbw d.dbh 20 0x05080f
  let s := lfbRoundFill s d.dbx d.dby d.dbw d.dbh 20 0x161f33
  { d with lfb := upTo dn (drawTile d) s }

/-- A digit below ten. -/
def digit (n : Nat) : UInt8 := 0x30 + UInt8.ofNat (n % 10)

theorem digit_ne_zero (n : Nat) : 0 ≠ digit n := by
  have hall : ∀ k < 10, (0 : UInt8) ≠ 0x30 + UInt8.ofNat k := by decide
  exact hall (n % 10) (Nat.mod_lt n (by omega))

/-- The text of the clock: minutes and seconds. -/
def clockText (t : UInt32) : CStr where
  chars :=
    let mm := t.toNat / 60 % 100
    let ss := t.toNat % 60
    [digit (mm / 10), digit mm, 0x3A, digit (ss / 10), digit ss]
  noNul := by
    simp [digit_ne_zero]

/-- `draw_clock`, at a time in seconds. -/
def drawClock (t : UInt32) (d : Desk α) : Desk α :=
  let tw := 5 * 16
  let s := lfbFill d.lfb (d.W - tw - 18) 3 (tw + 14) 30 0x0e1626
  { d with
    lfb := lfbText glyph s (d.W - tw - 14) 6 (clockText t) 0xaec2e6 (-1) 2 }

/-- The wallpaper. -/
def drawWall (d : Desk α) : Desk α :=
  { d with lfb := lfbGradientV d.lfb 0 0 d.W d.H d.gWallTop d.gWallBot }

/-- The top bar. -/
def drawBar (t : UInt32) (d : Desk α) : Desk α :=
  let tb := 38
  let s := lfbFill d.lfb 0 0 d.W tb 0x0e1626
  let s := lfbFill s 0 tb d.W 2 0x223456
  let s := lfbRoundFill s 16 11 16 16 4 d.gAccent
  let s := lfbText glyph s 42 6 (CStr.ofString "THUOS 0.20.0") 0xe8eefc (-1) 2
  drawClock glyph t { d with lfb := s }

/-- The window's place and size. -/
def placeWindow (d : Desk α) : Desk α :=
  { d with ww := 820, wh := 552, wx := (d.W - 820).tdiv 2, wy := 84, th := 40 }

/-- The frame of the window. -/
def drawWindow (d : Desk α) : Desk α :=
  let s := lfbRoundFill d.lfb (d.wx + 10) (d.wy + 12) d.ww d.wh 18 0x05080f
  let s := lfbRoundFill s d.wx d.wy d.ww d.wh 18 0x0f1626
  let s := lfbRoundFill s d.wx d.wy d.ww d.th 18 0x1d2b46
  let s := lfbFill s d.wx (d.wy + d.th - 18) d.ww 18 0x1d2b46
  let s := lfbFill s (d.wx + 1) (d.wy + d.th) (d.ww - 2) 1 0x2a3b5e
  let s := lfbFill s (d.wx + 20) (d.wy + 15) 12 12 0xff5f56
  let s := lfbFill s (d.wx + 44) (d.wy + 15) 12 12 0xffbd2e
  { d with lfb := lfbFill s (d.wx + 68) (d.wy + 15) 12 12 0x27c93f }

/-- The panel, the console and the dock. -/
def placePanel (d : Desk α) : Desk α :=
  let pad := 16
  let px := d.wx + pad
  let py := d.wy + d.th + pad
  let pw := d.ww - 2 * pad
  let ph := d.wh - d.th - 2 * pad
  let dbw := dn * ds + (dn - 1) * dgap + 28
  let dbh := ds + 20
  { d with
    px := px, py := py, pw := pw, ph := ph
    gcx := px + 10, gcy := py + 8, gcols := (pw - 20).tdiv 16
    grows := (ph - 16).tdiv 32
    dbw := dbw, dbh := dbh, dbx := (d.W - dbw).tdiv 2, dby := d.H - dbh - 14 }

/-- `desktop_draw`. -/
def desktopDraw (t : UInt32) (d : Desk α) : Desk α :=
  let d := drawWall { d with W := d.lfb.W, H := d.lfb.H }
  let d := drawWindow (placeWindow (drawBar glyph t d))
  drawDock (placePanel d)

/-- `titlebar_name`. -/
def titlebarName (app : App) (d : Desk α) : Desk α :=
  let s := lfbFill d.lfb (d.wx + 96) (d.wy + 2) 280 36 0x1d2b46
  { d with
    lfb := lfbText glyph s (d.wx + 104) (d.wy + 5) (APPNAME app) 0xe8eefc (-1)
      2 }

end Chrome

-- ============================================================== applications

/-- What the desktop calls. -/
structure Apps (α : Type*) where
  /-- `gcon_init`, the welcome and `shell_start` -/
  terminalOpen : (gcx gcy gcols grows : Int) → Desk α → Desk α
  /-- `gcon_set_active(0)` -/
  gconOff : Desk α → Desk α
  filesOpen : (x y w h : Int) → Desk α → Desk α
  notesOpen : (x y w h : Int) → Desk α → Desk α
  calcOpen : (x y w h : Int) → Desk α → Desk α
  paintOpen : (x y w h : Int) → Desk α → Desk α
  settingsOpen : (x y w h : Int) → Desk α → Desk α
  shellFeedChar : UInt8 → Desk α → Desk α
  calcKey : UInt8 → Desk α → Desk α
  notesKey : UInt8 → Desk α → Desk α
  calcClick : (mx my : Int) → Desk α → Desk α
  filesClick : (mx my : Int) → Desk α → Desk α
  paintClick : (mx my : Int) → Desk α → Desk α
  settingsClick : (mx my : Int) → Desk α → Desk α
  paintMotion : (mx my : Int) → Desk α → Desk α

section Routing

variable {α : Type*} (glyph : UInt8 → Nat → UInt8) (k : Apps α)

/-- The opening of an application in the panel. -/
def openApp (app : App) (d : Desk α) : Desk α :=
  match app with
  | .terminal =>
      let d :=
        { d with lfb := lfbRoundFill d.lfb d.px d.py d.pw d.ph 8 0x0a0f1a }
      k.terminalOpen d.gcx d.gcy d.gcols d.grows d
  | .files => k.filesOpen d.px d.py d.pw d.ph (k.gconOff d)
  | .notes => k.notesOpen d.px d.py d.pw d.ph (k.gconOff d)
  | .calculator => k.calcOpen d.px d.py d.pw d.ph (k.gconOff d)
  | .paint => k.paintOpen d.px d.py d.pw d.ph (k.gconOff d)
  | .settings => k.settingsOpen d.px d.py d.pw d.ph (k.gconOff d)

/-- `desktop_open_app`. -/
def desktopOpenApp (app : App) (d : Desk α) : Desk α :=
  drawDock (openApp k app (titlebarName glyph app { d with gApp := app }))

/-- `desktop_set_theme`. -/
def desktopSetTheme (t : UInt32) (top bot accent : UInt32) (d : Desk α) :
    Desk α :=
  let d := { d with gWallTop := top, gWallBot := bot, gAccent := accent }
  let d := desktopDraw glyph t d
  desktopOpenApp glyph k d.gApp d

/-- `dock_hit`. -/
def dockHit (d : Desk α) (mx my : Int) : Option App :=
  ((List.range dn).find? fun (i : Nat) =>
    let ax := d.dbx + 14 + i * (ds + dgap)
    let ay := d.dby + 10
    ax ≤ mx && mx < ax + ds && ay ≤ my && my < ay + ds).map
    fun (i : Nat) => App.all.getD i .terminal

/-- `route_key`. -/
def routeKey (c : UInt8) (d : Desk α) : Desk α :=
  if c = 27 then
    if d.gApp ≠ .terminal then desktopOpenApp glyph k .terminal d else d
  else
    match d.gApp with
    | .terminal => k.shellFeedChar c d
    | .calculator => k.calcKey c d
    | .notes => k.notesKey c d
    | _ => d

/-- `in_panel`. -/
def inPanel (d : Desk α) (mx my : Int) : Bool :=
  d.px ≤ mx && mx < d.px + d.pw && d.py ≤ my && my < d.py + d.ph

/-- `handle_click`. -/
def handleClick (mx my : Int) (d : Desk α) : Desk α :=
  match dockHit d mx my with
  | some app => desktopOpenApp glyph k app d
  | none =>
      if ¬ inPanel d mx my then d
      else
        match d.gApp with
        | .calculator => k.calcClick mx my d
        | .files => k.filesClick mx my d
        | .paint => k.paintClick mx my d
        | .settings => k.settingsClick mx my d
        | _ => d

end Routing

end Thuos.Gui
