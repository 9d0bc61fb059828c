/-
The graphical console, opened with any number of rows and columns, is a
terminal.

It holds its screen in the plane of what is drawn: a character marks its
cell (`FollowsAs.cellChar`), a scroll moves the marks up by a row of cells
(`FollowsAs.newline`), provided that the whole area is on the screen, since
drawing is clipped to it.
-/
import Thuos.Gui.Drawn
import Thuos.Gui.Proofs.OnScreen
import Thuos.Lib.Terminal

namespace Thuos.Gui

open Video Terminal

/-- Opened with `cols` columns and `rows` rows, the whole area on the
screen `s`. -/
structure OpenedAs (rows cols : Nat) (s : Lfb) (g : Gcon) : Prop where
  active : g.active = true
  cols : g.cols = cols
  rows : g.rows = rows
  cw : g.cw = 8 * g.scale
  ch : g.ch = 16 * g.scale
  left : 0 ≤ g.ox
  right : g.ox + g.cols * g.cw ≤ s.W
  top : 0 ≤ g.oy
  bottom : g.oy + g.rows * g.ch ≤ s.H

/-- The cells of the console. -/
def Gcon.grid (g : Gcon) : Grid where
  ox := g.ox
  oy := g.oy
  cw := g.cw
  ch := g.ch

/-- The characters of the plane, blank where there is none. -/
def Plane.chars (p : Plane) : Int → Int → UInt8 :=
  fun col row => (p col row).getD 0x20

/-- The console follows the screen `t`: its cursor is there, and its plane
has the characters. -/
structure FollowsAs {rows cols : Nat} (s : Lfb) (g : Gcon) (p : Plane)
    (t : Terminal rows cols UInt8) : Prop
    extends OpenedAs rows cols s g where
  cx : g.cx = t.col
  cy : g.cy = t.row
  tiled : Tiled g.grid p.chars t

/-- A list of calls, marked one after another. -/
abbrev markCalls (s : Lfb) (p : Plane) (calls : List LfbCall) : Plane :=
  calls.foldl (LfbCall.mark s) p

section Step

variable {rows cols : Nat} {s s' : Lfb} {g : Gcon} {p : Plane}
  {t : Terminal rows cols UInt8}

/-- A strip of a row of `n` of them ends in the row. -/
theorem strip_le {w : Int} {k n : Nat} (hk : k < n) (hw : 0 ≤ w) :
    k * w + w ≤ n * w := by
  have hnext : ((k + 1 : Nat) : Int) ≤ n := Int.ofNat_le.mpr hk
  rw [← strip_succ]
  exact Int.mul_le_mul_of_nonneg_right hnext hw

/-- A cell is in the columns of the area, and a cell above row `n` in its
first `n` rows of cells. -/
theorem OpenedAs.area (h : OpenedAs rows cols s g) {y n : Nat} {x : Fin cols}
    {col row : Int} (hin : g.grid.InCell y x col row) (hy : y < n) :
    InRect g.ox g.oy (g.cols * g.cw) (n * g.ch) col row := by
  obtain ⟨hl, hr, ht, hb⟩ := hin
  dsimp only [Gcon.grid] at hl hr ht hb
  have hcols := strip_le (w := g.cw) x.isLt (by omega)
  have hrows := strip_le (w := g.ch) hy (by omega)
  have hx0 : 0 ≤ (x : Int) * g.cw := Int.mul_nonneg (by omega) (by omega)
  have hy0 : 0 ≤ (y : Int) * g.ch := Int.mul_nonneg (by omega) (by omega)
  rw [h.cols]
  refine ⟨?_, ?_, ?_, ?_⟩ <;> omega

/-- A cell is on the screen. -/
theorem OpenedAs.inside (h : OpenedAs rows cols s g) (y : Fin rows)
    (x : Fin cols) {col row : Int} (hin : g.grid.InCell y x col row) :
    s.Inside (col, row) := by
  have hleft := h.left
  have hright := h.right
  have htop := h.top
  have hbottom := h.bottom
  obtain ⟨hl, hr, ht, hb⟩ := h.area hin y.isLt
  rw [h.rows] at hbottom
  refine ⟨?_, ?_, ?_, ?_⟩ <;> dsimp only <;> omega

/-- The rectangle of a cell. -/
theorem inCell_iff {y x : Nat} {col row : Int} :
    g.grid.InCell y x col row
      ↔ InRect (g.ox + x * g.cw) (g.oy + y * g.ch) g.cw g.ch col row := by
  constructor
  · rintro ⟨hl, hr, ht, hb⟩
    exact ⟨hl, hr, ht, hb⟩
  · rintro ⟨hl, hr, ht, hb⟩
    exact ⟨hl, hr, ht, hb⟩

/-- The rectangle of a character in a cell. -/
theorem OpenedAs.inChar_iff (h : OpenedAs rows cols s g) {y x : Nat}
    {col row : Int} :
    InRect (g.ox + x * g.cw) (g.oy + y * g.ch) (8 * g.scale) (16 * g.scale)
        col row
      ↔ g.grid.InCell y x col row := by
  rw [inCell_iff, ← h.cw, ← h.ch]

/-- A character drawn in a cell. -/
theorem FollowsAs.cellChar (h : FollowsAs s g p t) (glyph : Glyphs)
    (c : Int8) :
    FollowsAs s (cellChar glyph g c) ((charCall g c).mark s p)
      (t.setCell t.row t.col c.toUInt8) := by
  have hrect : ∀ col row, InRect (g.ox + g.cx * g.cw) (g.oy + g.cy * g.ch)
      (8 * g.scale) (16 * g.scale) col row
        ↔ g.grid.InCell t.row t.col col row := by
    intro col row
    rw [h.cx, h.cy]
    exact h.toOpenedAs.inChar_iff
  refine { h.toOpenedAs with cx := h.cx, cy := h.cy, tiled := ?_ }
  apply h.tiled.set t.row t.col
  · intro col row hin
    have hon := h.toOpenedAs.inside t.row t.col hin
    unfold Plane.chars charCall LfbCall.mark
    dsimp only
    rw [if_pos ⟨(hrect col row).mpr hin, hon⟩]
    rfl
  · intro col row hout
    unfold Plane.chars charCall LfbCall.mark
    dsimp only
    rw [if_neg fun hand => hout ((hrect col row).mp hand.1)]

/-- The marks move up by a row of cells. -/
theorem FollowsAs.scroll (h : FollowsAs s g p t) :
    Tiled g.grid
      (Plane.chars ((LfbCall.scrollUp g.ox g.oy (g.cols * g.cw)
        (g.rows * g.ch) g.ch g.bg).mark s p)) (t.scroll 0x20) := by
  obtain ⟨last, hlast⟩ : ∃ last, rows = last + 1 :=
    Nat.exists_eq_succ_of_ne_zero (Nat.ne_of_gt t.row.pos)
  have hall : g.rows * g.ch = last * g.ch + g.ch := by
    rw [h.rows, hlast, strip_succ]
  have hheight : g.rows * g.ch - g.ch = last * g.ch := by omega
  have hend : g.oy + g.rows * g.ch - g.ch = g.oy + last * g.ch := by omega
  apply h.tiled.scroll
  · intro y x col row hin hy
    have hrect := h.toOpenedAs.area hin (show y.val < last by omega)
    unfold Plane.chars LfbCall.mark
    dsimp only
    rw [hheight, if_pos hrect]
    rfl
  · intro y x col row hin hbelow
    have hon := h.toOpenedAs.inside y x hin
    have hy : y.val = last := by omega
    obtain ⟨hleft, hright, -, -⟩ := h.toOpenedAs.area hin y.isLt
    obtain ⟨-, -, htop, hbottom⟩ := inCell_iff.mp hin
    rw [hy] at htop hbottom
    unfold Plane.chars LfbCall.mark
    dsimp only
    rw [hheight, hend, if_neg, if_pos]
    · rfl
    · exact ⟨⟨hleft, hright, htop, hbottom⟩, hon⟩
    · rintro ⟨-, -, -, hin⟩
      exact absurd hin (Int.not_lt.mpr htop)

theorem FollowsAs.newline (h : FollowsAs s g p t) (x : Int) :
    FollowsAs s (Gui.newline { g with cx := x })
      (markCalls s p (newlineCalls g)) (t.newline 0x20) := by
  have hrows := h.rows
  have hcy := h.cy
  unfold Gui.newline newlineCalls Terminal.newline
  by_cases hlast : t.row.val + 1 < rows
  · have hstay : ¬ g.cy + 1 ≥ g.rows := by omega
    rw [if_neg hstay, dif_pos hlast]
    dsimp only
    rw [if_neg hstay]
    refine { h.toOpenedAs with cx := rfl, cy := ?_, tiled := h.tiled }
    show g.cy + 1 = ((t.row.val + 1 : Nat) : Int)
    omega
  · have hscroll : g.cy + 1 ≥ g.rows := by omega
    rw [if_pos hscroll, dif_neg hlast]
    dsimp only
    rw [if_pos hscroll]
    refine { h.toOpenedAs with cx := rfl, cy := ?_, tiled := h.scroll }
    show g.rows - 1 = (t.row.val : Int)
    omega

/-- To a column, or past the last one to the next row. -/
theorem FollowsAs.moveTo (h : FollowsAs s g p t) {x : Int} {k : Nat}
    (hx : x = k) :
    FollowsAs s
      (if x ≥ g.cols then Gui.newline { g with cx := x }
        else { g with cx := x })
      (markCalls s p (if x ≥ g.cols then newlineCalls g else []))
      (t.moveTo 0x20 k) := by
  have hcols := h.cols
  unfold Terminal.moveTo
  by_cases hk : k < cols
  · have hstay : ¬ x ≥ g.cols := by omega
    rw [if_neg hstay, if_neg hstay, dif_pos hk]
    exact { h.toOpenedAs with cx := hx, cy := h.cy, tiled := h.tiled }
  · have hwrap : x ≥ g.cols := by omega
    rw [if_pos hwrap, if_pos hwrap, dif_neg hk]
    exact h.newline x

/-- The cursor one cell back. -/
theorem FollowsAs.back (h : FollowsAs s g p t) (hpos : t.col.val ≠ 0) :
    FollowsAs s { g with cx := g.cx - 1 } p
      { t with col := ⟨t.col.val - 1, by omega⟩ } := by
  have hcx := h.cx
  refine { h.toOpenedAs with cx := ?_, cy := h.cy, tiled := h.tiled }
  show g.cx - 1 = ((t.col.val - 1 : Nat) : Int)
  omega

/-- Back by one cell, which is drawn blank. -/
theorem FollowsAs.backspace (h : FollowsAs s g p t) (glyph : Glyphs) :
    FollowsAs s
      (if g.cx > 0 then Gui.cellChar glyph { g with cx := g.cx - 1 } 0x20
        else g)
      (markCalls s p
        (if g.cx > 0 then [charCall { g with cx := g.cx - 1 } 0x20] else []))
      (t.backspace 0x20) := by
  have hcx := h.cx
  unfold Terminal.backspace
  by_cases hzero : t.col.val = 0
  · have hnone : ¬ g.cx > 0 := by omega
    rw [if_neg hnone, if_neg hnone, if_pos hzero]
    exact h
  · have hsome : g.cx > 0 := by omega
    rw [if_pos hsome, if_pos hsome, if_neg hzero]
    exact (h.back hzero).cellChar glyph 0x20

theorem toUInt8_eq (c k : Int8) : (c.toUInt8 = k.toUInt8) = (c = k) := by
  apply propext
  constructor
  · intro h
    have hchar := congrArg UInt8.toInt8 h
    rw [Int8.toInt8_toUInt8, Int8.toInt8_toUInt8] at hchar
    exact hchar
  · intro h
    rw [h]

/-- The switch of `gcon_putc` is a character fed to the screen. -/
theorem FollowsAs.switch (h : FollowsAs s g p t) (glyph : Glyphs) {c : Int8}
    (hwide : c = 9 → cols ≤ 80) :
    FollowsAs s (putcSwitch glyph g c) (markCalls s p (switchCalls g c))
      (t.feed 0x20 id c.toUInt8) := by
  have hcx := h.cx
  have hlt := t.col.isLt
  unfold putcSwitch switchCalls feed
  simp only [show (10 : UInt8) = (10 : Int8).toUInt8 from rfl,
    show (13 : UInt8) = (13 : Int8).toUInt8 from rfl,
    show (9 : UInt8) = (9 : Int8).toUInt8 from rfl,
    show (8 : UInt8) = (8 : Int8).toUInt8 from rfl, toUInt8_eq]
  by_cases hnl : c = 10
  · rw [if_pos hnl, if_pos hnl, if_pos hnl]
    exact h.newline g.cx
  rw [if_neg hnl, if_neg hnl, if_neg hnl]
  by_cases hcr : c = 13
  · rw [if_pos hcr, if_pos hcr, if_pos hcr]
    exact { h.toOpenedAs with cx := rfl, cy := h.cy, tiled := h.tiled }
  rw [if_neg hcr, if_neg hcr, if_neg hcr]
  by_cases htab : c = 9
  · have hcols := hwide htab
    have hstop : tabStop g.cx = ((t.col.val / 4 + 1) * 4 : Nat) := by
      rw [hcx, tabStop_eq (by omega) (by omega)]
      push_cast
      rfl
    rw [if_pos htab, if_pos htab, if_pos htab]
    exact h.moveTo hstop
  rw [if_neg htab, if_neg htab, if_neg htab]
  by_cases hbs : c = 8
  · rw [if_pos hbs, if_pos hbs, if_pos hbs]
    exact h.backspace glyph
  · rw [if_neg hbs, if_neg hbs, if_neg hbs]
    refine (h.cellChar glyph c).moveTo (x := g.cx + 1) ?_
    show g.cx + 1 = ((t.col.val + 1 : Nat) : Int)
    omega

/-- The cursor bar is not marked. -/
theorem mark_bars (s : Lfb) (p : Plane) (g g' : Gcon) (rgb rgb' : UInt32)
    (calls : List LfbCall) :
    markCalls s p (barCall g rgb :: (calls ++ [barCall g' rgb']))
      = markCalls s p calls := by
  unfold markCalls
  rw [List.foldl_cons, List.foldl_append]
  rfl

/-- One character. -/
theorem FollowsAs.putc (h : FollowsAs s g p t) (glyph : Glyphs) {c : Int8}
    (hwide : c = 9 → cols ≤ 80) :
    FollowsAs s (gconPutc glyph g c) (markCalls s p (putcCalls g glyph c))
      (t.feed 0x20 id c.toUInt8) := by
  have herase : FollowsAs s (cursorErase g) p t :=
    { h.toOpenedAs with cx := h.cx, cy := h.cy, tiled := h.tiled }
  have hswitch := herase.switch glyph hwide
  unfold putcCalls
  rw [if_neg (not_not.mpr h.active), mark_bars, gconPutc_eq h.active]
  exact { hswitch.toOpenedAs with
    cx := hswitch.cx
    cy := hswitch.cy
    tiled := hswitch.tiled }

/-- On a screen of the same size. -/
theorem FollowsAs.resize (h : FollowsAs s g p t) (hsize : Grows s s') :
    FollowsAs s' g p t :=
  { h with
    right := hsize.W ▸ h.right
    bottom := hsize.H ▸ h.bottom }

end Step

-- ================================================================= the calls

section Calls

variable (glyph : Glyphs)

/-- A list of calls, made one after another. -/
abbrev runCalls (s : Lfb) (calls : List LfbCall) : Lfb :=
  calls.foldl (LfbCall.run glyph) s

theorem newline_calls (g : Gcon) :
    (newline g).lfb = runCalls glyph g.lfb (newlineCalls g) := by
  unfold newline newlineCalls
  by_cases hlast : g.cy + 1 ≥ g.rows
  · rw [if_pos hlast]
    dsimp only
    rw [if_pos hlast]
    rfl
  · rw [if_neg hlast]
    dsimp only
    rw [if_neg hlast]
    rfl

theorem switch_calls (g : Gcon) (c : Int8) :
    (putcSwitch glyph g c).lfb = runCalls glyph g.lfb (switchCalls g c) := by
  unfold putcSwitch switchCalls
  split
  · exact newline_calls glyph g
  split
  · rfl
  split
  · split
    · exact newline_calls glyph { g with cx := tabStop g.cx }
    · rfl
  split
  · split
    · rfl
    · rfl
  · split
    · exact newline_calls glyph { cellChar glyph g c with cx := g.cx + 1 }
    · rfl

/-- The calls listed are the ones that are made. -/
theorem gconPutc_calls (g : Gcon) (c : Int8) :
    (gconPutc glyph g c).lfb
      = runCalls glyph g.lfb (putcCalls g glyph c) := by
  unfold putcCalls
  by_cases hactive : g.active
  · let g' := putcSwitch glyph (cursorErase g) c
    have hswitch : g'.lfb
        = runCalls glyph (cursorErase g).lfb (switchCalls g c) :=
      switch_calls glyph (cursorErase g) c
    rw [if_neg (not_not.mpr hactive)]
    unfold runCalls
    dsimp only
    rw [List.foldl_cons, List.foldl_append, gconPutc_eq hactive]
    exact congrArg (fun s => LfbCall.run glyph s (barCall g' g'.accent))
      hswitch
  · unfold gconPutc
    rw [if_pos hactive, if_pos hactive]
    rfl

theorem gconInit_calls (g : Gcon) (x y c r s : Int) (f b : UInt32) :
    (gconInit g x y c r s f b).lfb
      = runCalls glyph g.lfb (initCalls g x y c r s f b) := rfl

/-- A call leaves the size of the screen. -/
theorem LfbCall.run_grows (s : Lfb) (call : LfbCall) :
    Grows s (call.run glyph s) := by
  cases call with
  | blank x y w h rgb => exact (lfbFill_clean ..).toGrows
  | bar x y w h rgb => exact (lfbFill_clean ..).toGrows
  | char x y ch fg bg scale => exact (lfbChar_clean ..).toGrows
  | scrollUp x y w h dy fill => exact lfbScrollUp_grows ..

theorem runCalls_grows (s : Lfb) (calls : List LfbCall) :
    Grows s (runCalls glyph s calls) := by
  induction calls generalizing s with
  | nil => exact Grows.refl s
  | cons call calls ih => exact (call.run_grows glyph s).trans (ih _)

end Calls

-- =================================================================== the run

section Run

variable {rows cols : Nat} {t : Terminal rows cols UInt8}

/-- The traced console follows the screen. -/
def Traced.FollowsAs (r : Traced) (t : Terminal rows cols UInt8) : Prop :=
  Gui.FollowsAs r.gcon.lfb r.gcon r.plane t

theorem Traced.FollowsAs.putc {r : Traced} (h : r.FollowsAs t)
    (glyph : Glyphs) {c : Int8} (hwide : c = 9 → cols ≤ 80) :
    (r.putc glyph c).FollowsAs (t.feed 0x20 id c.toUInt8) := by
  have hsize : Grows r.gcon.lfb (gconPutc glyph r.gcon c).lfb := by
    rw [gconPutc_calls]
    exact runCalls_grows glyph _ _
  exact (Gui.FollowsAs.putc h glyph hwide).resize hsize

/-- The area of `gcon_init` is on the screen. -/
def ContainedAs (rows cols : Nat) (s : Lfb) (x y scale : Int) : Prop :=
  0 ≤ x ∧ x + cols * (8 * scale) ≤ s.W ∧ 0 ≤ y
    ∧ y + rows * (16 * scale) ≤ s.H

/-- A console just opened. -/
theorem Traced.init_followsAs (r : Traced) {x y scale : Int} (f b : UInt32)
    (hrows : 0 < rows) (hcols : 0 < cols)
    (h : ContainedAs rows cols r.gcon.lfb x y scale) :
    (r.init x y cols rows scale f b).FollowsAs
      (clear (0x20 : UInt8) hrows hcols) := by
  obtain ⟨hleft, hright, htop, hbottom⟩ := h
  have hopened : OpenedAs rows cols r.gcon.lfb
      (r.init x y cols rows scale f b).gcon :=
    ⟨rfl, rfl, rfl, rfl, rfl, hleft, hright, htop, hbottom⟩
  have hsize : Grows r.gcon.lfb
      (gconInit r.gcon x y cols rows scale f b).lfb := by
    rw [gconInit_calls fun _ _ => 0]
    exact runCalls_grows _ _ _
  refine Gui.FollowsAs.resize ?_ hsize
  refine { hopened with cx := rfl, cy := rfl, tiled := ?_ }
  intro row col px py hin
  have hon := hopened.inside row col hin
  have hrect := hopened.area hin row.isLt
  have hblank : (r.init x y cols rows scale f b).plane px py = none :=
    if_pos ⟨hrect, hon⟩
  unfold Plane.chars
  rw [hblank]
  rfl

end Run

end Thuos.Gui
