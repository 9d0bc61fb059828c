/-
What is looked at: the console that `raw_putc` writes to, the text console
or the graphical one, as a display of cells with a cursor.

Either console is a terminal (`Displays`), and a character written is a
byte fed to it (`Displays.rawPutc`). A line on the terminal is a line on
the display (`Displays.showsLine`).
-/
import Thuos.Core.Kprintf
import Thuos.Gui.Proofs.TwoConsoles
import Thuos.Lib.ScreenLine

namespace Thuos.Core

open Gui Machine Terminal Video

-- ================================================================ the display

/-- A console as it is looked at: its size, where the cursor is, and which
cell shows which character. -/
structure Display where
  rows : Nat
  cols : Nat
  cursorAt : Nat → Nat → Prop
  shows : Nat → Nat → UInt8 → Prop

/-- The graphical console, once it is active, else the text console, with
the cursor of the driver and of the hardware. -/
def Sinks.display (s : Sinks) : Display :=
  if s.gcon.gcon.active then
    { rows := s.gcon.gcon.rows.toNat
      cols := s.gcon.gcon.cols.toNat
      cursorAt := fun y x => s.gcon.gcon.cy = y ∧ s.gcon.gcon.cx = x
      shows := s.gcon.Shows }
  else
    { rows := VGA_HEIGHT
      cols := VGA_WIDTH
      cursorAt := fun y x => s.vga.vgaRow = y ∧ s.vga.vgaCol = x
        ∧ cursorPos s.vga = y * VGA_WIDTH + x
      shows := fun y x b => vgaChar s.vga y x = b }

/-- From the start of a row on, the cells show the text, wrapped at the
width of the console, and blanks behind it; the cursor is right behind the
text. -/
def Display.ShowsLine (d : Display) (text : List UInt8) : Prop :=
  ∃ start y x, y < d.rows ∧ x < d.cols ∧ d.cursorAt y x
    ∧ index d.cols y x = start * d.cols + text.length
    ∧ ∀ y < d.rows, ∀ x < d.cols, start * d.cols ≤ index d.cols y x →
      d.shows y x ((text[index d.cols y x - start * d.cols]?).getD 0x20)

-- =============================================================== the terminal

/-- The text console shows the screen `t`. -/
structure VgaDisplays {rows cols : Nat} (v : Vga)
    (t : Terminal rows cols UInt8) : Prop where
  height : rows = VGA_HEIGHT
  width : cols = VGA_WIDTH
  row : v.vgaRow = t.row
  col : v.vgaCol = t.col
  pos : cursorPos v = v.vgaRow * VGA_WIDTH + v.vgaCol
  char : ∀ (y : Fin rows) (x : Fin cols), vgaChar v y x = t.cell y x

/-- The console in use shows the screen `t`. -/
def Displays {rows cols : Nat} (s : Sinks) (t : Terminal rows cols UInt8) :
    Prop :=
  if s.gcon.gcon.active then s.gcon.FollowsAs t else VgaDisplays s.vga t

section Text

variable {v : Vga}

/-- The words of the console, as a screen of words. -/
def wordsOf (v : Vga) (t : Screen) : Console where
  screen :=
    { cell := fun y x => v.mem (index 80 y x)
      row := t.row
      col := t.col }
  colour := v.vgaColor

theorem VgaDisplays.shown {t : Screen} (h : VgaDisplays v t) :
    Shown v.mem v (wordsOf v t)
      ∧ (wordsOf v t).screen.map UInt16.toUInt8 = t := by
  refine ⟨⟨⟨h.row, h.col, rfl, fun _ _ => rfl, fun _ _ => rfl⟩, h.pos⟩, ?_⟩
  have hcell : (fun (y : Fin 25) (x : Fin 80) =>
      (v.mem (index 80 y x)).toUInt8) = t.cell :=
    funext fun y => funext fun x => h.char y x
  unfold wordsOf Terminal.map
  dsimp only
  rw [hcell]

/-- A screen of words shows its low bytes. -/
theorem Shown.displays {base : Nat → UInt16} {c : Console}
    (h : Shown base v c) : VgaDisplays v (c.screen.map UInt16.toUInt8) := by
  refine ⟨rfl, rfl, h.row, h.col, h.pos, fun y x => ?_⟩
  exact congrArg UInt16.toUInt8 (h.laid y x)

/-- A byte is one step of the driver's console. -/
theorem step_map (c : Console) (b : UInt8) :
    (c.step vgaPacking (.putc b)).screen.map UInt16.toUInt8
      = (c.screen.map UInt16.toUInt8).feed 0x20 id b := by
  have hmap := map_feed UInt16.toUInt8 c.screen (vgaPacking 0x20 c.colour)
    (fun b => vgaPacking b c.colour) b
  simp only [vgaPacking_low] at hmap
  show _ = (c.screen.map UInt16.toUInt8).feed 0x20 (fun b => b) b
  rw [← hmap]
  unfold Console.step feed
  dsimp only
  split_ifs <;> rfl

theorem VgaDisplays.putc {rows cols : Nat} {t : Terminal rows cols UInt8}
    (h : VgaDisplays v t) (c : UInt8) :
    VgaDisplays (vgaPutc v c.toInt8) (t.feed 0x20 id c) := by
  obtain rfl : rows = 25 := h.height
  obtain rfl : cols = 80 := h.width
  obtain ⟨hshown, hmap⟩ := h.shown
  have hnext := Shown.displays (hshown.putc c)
  rw [step_map, hmap] at hnext
  exact hnext

/-- A text console just cleared. -/
theorem vgaClear_displays (v : Vga) :
    VgaDisplays (vgaClear v) Screen.cleared := by
  have h := Shown.displays (shown_clear v)
  have hblank : (clear (vgaPacking 0x20 v.vgaColor) (by decide)
      (by decide)).map UInt16.toUInt8 = Screen.cleared := by
    unfold Terminal.map clear Screen.cleared
    simp only [vgaPacking_low]
    rfl
  rw [hblank] at h
  exact h

end Text

-- =================================================================== the sinks

section Sinks

variable {rows cols : Nat} {s : Sinks} {t : Terminal rows cols UInt8}

/-- One character; the tab stops of the graphical console are those of the
terminal up to 80 columns. -/
theorem Displays.rawPutc (h : Displays s t) (glyph : Glyphs) {c : UInt8}
    (hwide : c = 9 → cols ≤ 80) :
    Displays (rawPutc glyph s c) (t.feed 0x20 id c) := by
  unfold Displays at h ⊢
  rw [rawPutc_eq]
  cases hactive : s.gcon.gcon.active with
  | true =>
      rw [hactive] at h
      have htab : c.toInt8 = 9 → cols ≤ 80 := by
        intro heq
        exact hwide ((toInt8_eq_iff c 9).mp heq)
      have hnext := Traced.FollowsAs.putc h glyph htab
      have hstays := hnext.active
      rw [UInt8.toUInt8_toInt8] at hnext
      dsimp only
      rw [if_pos rfl, if_pos hstays]
      exact hnext
  | false =>
      rw [hactive] at h
      have hnext := VgaDisplays.putc h c
      dsimp only
      rw [if_neg Bool.false_ne_true, if_neg Bool.false_ne_true, hactive,
        if_neg Bool.false_ne_true]
      exact hnext

/-- A text. -/
theorem Displays.rawPutcs (h : Displays s t) (glyph : Glyphs)
    {text : List UInt8} (hwide : 9 ∈ text → cols ≤ 80) :
    Displays (exec (Thuos.Core.rawPutc glyph) s text)
      (exec (feed 0x20 id) t text) := by
  induction text generalizing s t with
  | nil => exact h
  | cons c text ih =>
      have hc : c = 9 → cols ≤ 80 := by
        rintro rfl
        exact hwide List.mem_cons_self
      exact ih (h.rawPutc glyph hc) fun hmem =>
        hwide (List.mem_cons_of_mem c hmem)

/-- The display has the size, the cursor and the characters of the
terminal. -/
structure Display.Reads (d : Display) (t : Terminal rows cols UInt8) :
    Prop where
  height : d.rows = rows
  width : d.cols = cols
  cursor : ∀ y x, d.cursorAt y x ↔ y = t.row.val ∧ x = t.col.val
  shows : ∀ (y : Fin rows) (x : Fin cols), d.shows y x (t.cell y x)

theorem Displays.reads (h : Displays s t) : s.display.Reads t := by
  unfold Displays at h
  unfold Sinks.display
  cases hactive : s.gcon.gcon.active with
  | true =>
      rw [hactive, if_pos rfl] at h
      rw [if_pos rfl]
      refine ⟨?_, ?_, fun y x => ?_, fun y x col row hin => ?_⟩
      · dsimp only
        rw [h.rows, Int.toNat_natCast]
      · dsimp only
        rw [h.cols, Int.toNat_natCast]
      · dsimp only
        rw [h.cy, h.cx]
        omega
      · exact h.tiled y x col row (inCell_iff.mpr hin)
  | false =>
      rw [hactive, if_neg Bool.false_ne_true] at h
      rw [if_neg Bool.false_ne_true]
      refine ⟨h.height.symm, h.width.symm, fun y x => ?_, h.char⟩
      dsimp only
      rw [h.pos, h.row, h.col]
      constructor
      · rintro ⟨hy, hx, -⟩
        exact ⟨hy.symm, hx.symm⟩
      · rintro ⟨rfl, rfl⟩
        exact ⟨rfl, rfl, rfl⟩

end Sinks

-- ==================================================================== a line

section Line

variable {rows cols : Nat} {d : Display} {t : Terminal rows cols UInt8}
  {text : List UInt8}

/-- A line of the terminal, on the display. -/
theorem Display.Reads.showsLine (h : d.Reads t) {start : Nat}
    (hline : t.HasLine 0x20 start text) : d.ShowsLine text := by
  obtain ⟨hrows, hcols, hcursor, hshows⟩ := h
  obtain rfl := hrows
  obtain rfl := hcols
  refine ⟨start, t.row, t.col, t.row.isLt, t.col.isLt,
    (hcursor _ _).mpr ⟨rfl, rfl⟩, hline.cursor, fun y hy x hx hin => ?_⟩
  rw [← hline.lined ⟨y, hy⟩ ⟨x, hx⟩ hin]
  exact hshows ⟨y, hy⟩ ⟨x, hx⟩

/-- Behind a line on the display, the cursor is in the column that its
length says. -/
theorem Display.Reads.col_eq (h : d.Reads t) (hline : d.ShowsLine text) :
    t.col.val = text.length % cols := by
  obtain ⟨start, y, x, -, hx, hat, hindex, -⟩ := hline
  obtain ⟨-, rfl⟩ := (h.cursor y x).mp hat
  unfold index at hindex
  have hmod := congrArg (· % d.cols) hindex
  rw [Nat.mul_add_mod', Nat.mul_add_mod', Nat.mod_eq_of_lt hx] at hmod
  rw [hmod, h.width]

end Line

end Thuos.Core
