/-
The Files viewer (kernel/gui/apps.c): a list of the files in the
filesystem, and what is in the one that is clicked on.

The state is the statics of the viewer, the filesystem that it lists and the
framebuffer that it draws into.
-/
import Thuos.Fs.Kfs
import Thuos.Gui.Calc
import Thuos.Gui.Paint
import Thuos.Gui.TextBlock

namespace Thuos.Gui

open Fs Video

def ACCENT : UInt32 := 0x6cc7ff

structure Files where
  faX : Int
  faY : Int
  faW : Int
  faH : Int
  faRowy : Int
  faRowh : Int
  faListx : Int
  faListw : Int
  kfs : Ramfs
  lfb : Lfb

theorem cut_noNul (bs : List UInt8) : (0 : UInt8) ∉ bs.takeWhile (· ≠ 0) :=
  fun h => by simpa using List.mem_takeWhile_imp h

/-- The bytes up to a terminator. -/
def textOf (bs : List UInt8) : CStr where
  chars := bs.takeWhile (· ≠ 0)
  noNul := cut_noNul bs

-- ================================================================== the list

/-- A file in the list, with its name. -/
def drawRow (glyph : UInt8 → Nat → UInt8) (p : Files) (s : Lfb) (shown : Nat)
    (nm : CStr) : Lfb :=
  let ry := p.faRowy + shown * p.faRowh
  let s := lfbRoundFill s p.faListx ry p.faListw (p.faRowh - 6) 6 CARD2
  lfbText glyph s (p.faListx + 10) (ry + 3) nm TXT_HI (-1) 1

/-- A turn of the loop over the table. -/
def listFile (glyph : UInt8 → Nat → UInt8) (p : Files) (r : Lfb × Nat)
    (i : Nat) : Lfb × Nat :=
  match ramfsName p.kfs i with
  | none => r
  | some nm => (drawRow glyph p r.1 r.2 nm, r.2 + 1)

/-- The panel and its heading. -/
def filesHeading (glyph : UInt8 → Nat → UInt8) (p : Files) : Lfb :=
  let s := lfbFill p.lfb p.faX p.faY p.faW p.faH PANEL_BG
  let s := lfbText glyph s (p.faX + 16) (p.faY + 12) (CStr.ofString "Files")
    TXT_HI (-1) 2
  let s := lfbText glyph s (p.faX + 16) (p.faY + 44)
    (CStr.ofString "ramfs - click a file to view") TXT_LO (-1) 1
  let buf := textOf (itoaL (UInt32.ofNat p.kfs.arenaUsed).toInt32)
  let s := lfbText glyph s (p.faX + 16) (p.faY + 62) buf TXT_LO (-1) 1
  lfbText glyph s (p.faX + 16 + buf.length * 8 + 8) (p.faY + 62)
    (CStr.ofString "bytes used") TXT_LO (-1) 1

/-- The empty view beside the list. -/
def filesView (glyph : UInt8 → Nat → UInt8) (p : Files) (s : Lfb) : Lfb :=
  let s := lfbRoundFill s (p.faX + 16 + p.faListw + 12) (p.faY + 90)
    (p.faW - 32 - p.faListw - 12) (p.faH - 100) 8 0x05080f
  lfbText glyph s (p.faX + 16 + p.faListw + 24) (p.faY + 100)
    (CStr.ofString "select a file ->") TXT_LO (-1) 1

/-- Where `app_files_open` puts things. -/
def placeFiles (p : Files) (x y w h : Int) : Files :=
  { p with
    faX := x, faY := y, faW := w, faH := h, faListx := x + 16
    faListw := (w - 32).tdiv 2, faRowy := y + 90, faRowh := 28 }

/-- `app_files_open`. -/
def appFilesOpen (glyph : UInt8 → Nat → UInt8) (p : Files) (x y w h : Int) :
    Files :=
  let p := placeFiles p x y w h
  let (s, shown) :=
    (List.range p.kfs.maxFiles).foldl (listFile glyph p)
      (filesHeading glyph p, 0)
  let s :=
    if shown = 0 then
      lfbText glyph s p.faListx p.faRowy (CStr.ofString "(no files)") TXT_LO
        (-1) 1
    else s
  { p with lfb := filesView glyph p s }

-- ================================================================== a click

/-- What a click on a file draws: its name, and the first 511 bytes. -/
def showFile (glyph : UInt8 → Nat → UInt8) (p : Files) (nm : CStr) : Files :=
  let vx := p.faX + 16 + p.faListw + 12
  let vy := p.faY + 90
  let vw := p.faW - 32 - p.faListw - 12
  let vh := p.faH - 100
  let s := lfbRoundFill p.lfb vx vy vw vh 8 0x05080f
  let s := lfbText glyph s (vx + 12) (vy + 10) nm ACCENT (-1) 1
  match kfsRead p.kfs nm with
  | none => { p with lfb := s }
  | some d =>
      { p with
        lfb := (textBlock glyph s (vx + 12) (vy + 34) (vw - 24)
          (textOf (d.take 511)) TXT_HI 1).1 }

/-- The loop that finds the file in a row: `shown` files have been passed. -/
def fileInRow (kfs : Ramfs) (row : Int) : List Nat → Nat → Option CStr
  | [], _ => none
  | i :: is, shown =>
      match ramfsName kfs i with
      | none => fileInRow kfs row is shown
      | some nm =>
          if (shown : Int) = row then some nm
          else fileInRow kfs row is (shown + 1)

/-- `app_files_click`. -/
def appFilesClick (glyph : UInt8 → Nat → UInt8) (p : Files) (mx my : Int) :
    Files :=
  if mx < p.faListx ∨ mx > p.faListx + p.faListw then p
  else
    let row := (my - p.faRowy).tdiv p.faRowh
    if row < 0 then p
    else
      match fileInRow p.kfs row (List.range p.kfs.maxFiles) 0 with
      | some nm => showFile glyph p nm
      | none => p

end Thuos.Gui
