/-
The plane of the graphical console is on the screen.

Above the cursor bar a cell has the pixels of its character, as `lfb_char`
draws them, or the background where the plane has none (`Painted`). Every
call that the console makes keeps that (`Painted.run`), wherever it is made
from: a bar stays below, a character and its mark have the same rectangle,
and a scroll moves pixels and marks alike. The calls are made on cells of
the console (`FollowsAs.putc_placed`), so it holds after any text
(`Traced.Draws.exec`), for any number of rows and columns.

The background has to be a colour that `lfb_char` draws: it takes it as a
signed number, and leaves a negative one out.
-/
import Thuos.Gui.Proofs.Cells
import Thuos.Lib.Machine
import Thuos.Video.Proofs.Pixels

namespace Thuos.Gui

open Video Machine Terminal

-- ============================================================== the picture

/-- The pixel is in the cell, above the cursor bar. -/
structure AboveBar (g : Gcon) (y x : Nat) (col row : Int) : Prop where
  cell : g.grid.InCell y x col row
  above : row < g.oy + y * g.ch + g.ch - 2 * g.scale

/-- The colour of a pixel of a cell that has this character, or none. -/
def cellInk (glyph : Glyphs) (g : Gcon) (o : Option UInt8) (y x : Nat)
    (col row : Int) : UInt32 :=
  match o with
  | none => g.bg
  | some b =>
      charInk glyph b (g.ox + x * g.cw) (g.oy + y * g.ch) g.scale g.fg g.bg
        col row

/-- The framebuffer has the characters of the plane, above the bars. -/
def Painted (rows cols : Nat) (glyph : Glyphs) (g : Gcon) (s : Lfb)
    (p : Plane) : Prop :=
  ∀ (y : Fin rows) (x : Fin cols) (col row : Int), AboveBar g y x col row →
    s.read col row = cellInk glyph g (p col row) y x col row

/-- The screen shows the character in the cell: its pixels above the bar
are those that `lfb_char` draws for it, or the background where a blank has
not been drawn. -/
def Gcon.Depicts (glyph : Glyphs) (g : Gcon) (y x : Nat) (b : UInt8) : Prop :=
  ∀ col row, AboveBar g y x col row →
    ∃ o : Option UInt8, o.getD 0x20 = b
      ∧ g.lfb.read col row = cellInk glyph g o y x col row

/-- A call that the console makes, on one of its cells or on all. -/
inductive Placed (rows cols : Nat) (g : Gcon) : LfbCall → Prop
  | blank :
      Placed rows cols g
        (.blank g.ox g.oy (g.cols * g.cw) (g.rows * g.ch) g.bg)
  | bar (y : Fin rows) (x : Fin cols) (rgb : UInt32) :
      Placed rows cols g (.bar (g.ox + x * g.cw)
        (g.oy + y * g.ch + g.ch - 2 * g.scale) g.cw (2 * g.scale) rgb)
  | char (y : Fin rows) (x : Fin cols) (c : Int8) :
      Placed rows cols g (.char (g.ox + x * g.cw) (g.oy + y * g.ch) c g.fg
        g.bg.toInt32.toInt g.scale)
  | scrollUp :
      Placed rows cols g (.scrollUp g.ox g.oy (g.cols * g.cw)
        (g.rows * g.ch) g.ch g.bg)

-- ================================================================ the calls

/-- A console whose background is drawn, on a framebuffer with rows that
are long enough. -/
structure Drawable (rows cols : Nat) (s : Lfb) (g : Gcon) : Prop
    extends OpenedAs rows cols s g where
  wide : s.W ≤ s.pitchPx
  scale : 0 < g.scale
  bg : g.bg < 0x80000000

section Call

variable {rows cols : Nat} {s : Lfb} {g : Gcon} {p : Plane} {glyph : Glyphs}

/-- The whole area fits. -/
theorem Drawable.fits_area (h : Drawable rows cols s g) :
    Fits s g.ox g.oy (g.cols * g.cw) (g.rows * g.ch) := by
  have hcw := h.cw
  have hch := h.ch
  have hscale := h.scale
  have hw : 0 ≤ g.cols * g.cw := by
    rw [h.cols]
    exact Int.mul_nonneg (by omega) (by omega)
  have hh : 0 ≤ g.rows * g.ch := by
    rw [h.rows]
    exact Int.mul_nonneg (by omega) (by omega)
  exact ⟨h.wide, h.left, hw, h.right, h.top, hh, h.bottom⟩

/-- So does each cell. -/
theorem Drawable.fits_cell (h : Drawable rows cols s g) (y : Fin rows)
    (x : Fin cols) :
    Fits s (g.ox + x * g.cw) (g.oy + y * g.ch) g.cw g.ch := by
  have hcw := h.cw
  have hch := h.ch
  have hscale := h.scale
  have hleft := h.left
  have hright := h.right
  have htop := h.top
  have hbottom := h.bottom
  have hcols := strip_le (w := g.cw) x.isLt (by omega)
  have hrows := strip_le (w := g.ch) y.isLt (by omega)
  have hx0 : 0 ≤ (x : Int) * g.cw := Int.mul_nonneg (by omega) (by omega)
  have hy0 : 0 ≤ (y : Int) * g.ch := Int.mul_nonneg (by omega) (by omega)
  rw [h.cols] at hright
  rw [h.rows] at hbottom
  refine ⟨h.wide, ?_, ?_, ?_, ?_, ?_, ?_⟩ <;> omega

/-- And the rectangle of a character. -/
theorem Drawable.fits_char (h : Drawable rows cols s g) (y : Fin rows) (x : Fin cols) :
    Fits s (g.ox + x * g.cw) (g.oy + y * g.ch) (8 * g.scale)
      (16 * g.scale) := by
  have hcw := h.cw
  have hch := h.ch
  obtain ⟨hwide, hleft, hw, hright, htop, hh, hbottom⟩ := h.fits_cell y x
  exact ⟨hwide, hleft, by omega, by omega, htop, by omega, by omega⟩

/-- A pixel of a cell is one of the rows. -/
theorem Drawable.in_rows (h : Drawable rows cols s g) {y : Fin rows} {x : Fin cols}
    {col row : Int} (hin : g.grid.InCell y x col row) :
    0 ≤ col ∧ col < s.pitchPx := by
  obtain ⟨hlow, hhigh, -, -⟩ := h.inside y x hin
  have hwide := h.wide
  dsimp only at hlow hhigh
  omega

/-- The background, as `lfb_char` takes it. -/
theorem Drawable.bg_nonneg (h : Drawable rows cols s g) :
    0 ≤ g.bg.toInt32.toInt ∧ UInt32.ofInt g.bg.toInt32.toInt = g.bg := by
  have hlt : g.bg.toNat < 2147483648 := UInt32.lt_iff_toNat_lt.mp h.bg
  have hint : g.bg.toInt32.toInt = g.bg.toNat := by
    show g.bg.toBitVec.toInt = _
    rw [BitVec.toInt_eq_toNat_of_lt]
    · rfl
    · show 2 * g.bg.toNat < 2 ^ 32
      omega
  refine ⟨by omega, ?_⟩
  rw [hint]
  apply UInt32.toNat_inj.mp
  show ((g.bg.toNat : Int) % 2 ^ 32).toNat % 2 ^ 32 = _
  omega

/-- A bar is below. -/
theorem Painted.bar (h : Painted rows cols glyph g s p) (hd : Drawable rows cols s g)
    (y : Fin rows) (x : Fin cols) (rgb : UInt32) :
    Painted rows cols glyph g (lfbFill s (g.ox + x * g.cw)
      (g.oy + y * g.ch + g.ch - 2 * g.scale) g.cw (2 * g.scale) rgb) p := by
  intro y' x' col row hin
  obtain ⟨hlow, hhigh⟩ := hd.in_rows hin.cell
  obtain ⟨hwide, hleft, hw, hright, htop, hh, hbottom⟩ := hd.fits_cell y x
  have hscale := hd.scale
  have hch := hd.ch
  have hfill := lfbFill_paints (s := s) (x := g.ox + x * g.cw)
    (y := g.oy + y * g.ch + g.ch - 2 * g.scale) (w := g.cw)
    (h := 2 * g.scale) ⟨hwide, hleft, hw, hright, by omega, by omega,
      by omega⟩ rgb
  rw [hfill.outside col row hlow hhigh, h y' x' col row hin]
  rintro ⟨hl, hr, ht, hb⟩
  -- the bar's cell is the pixel's
  have hcell : g.grid.InCell y x col row := inCell_iff.mpr
    ⟨hl, hr, by omega, by omega⟩
  obtain ⟨hy, -⟩ := hcell.unique hin.cell
  have habove := hin.above
  rw [← hy] at habove
  omega

/-- A character and its mark are in one cell. -/
theorem Painted.char (h : Painted rows cols glyph g s p) (hd : Drawable rows cols s g)
    (y : Fin rows) (x : Fin cols) (c : Int8) :
    Painted rows cols glyph g
      (lfbChar glyph s (g.ox + x * g.cw) (g.oy + y * g.ch) c g.fg
        g.bg.toInt32.toInt g.scale)
      ((LfbCall.char (g.ox + x * g.cw) (g.oy + y * g.ch) c g.fg
        g.bg.toInt32.toInt g.scale).mark s p) := by
  intro y' x' col row hin
  obtain ⟨hlow, hhigh⟩ := hd.in_rows hin.cell
  obtain ⟨hbg, hcolour⟩ := hd.bg_nonneg
  have hchar := lfbChar_paints (hd.fits_char y x) hd.scale glyph c g.fg hbg
  rw [hcolour] at hchar
  unfold LfbCall.mark
  dsimp only
  by_cases hrect : InRect (g.ox + x * g.cw) (g.oy + y * g.ch)
      (8 * g.scale) (16 * g.scale) col row
  · have hcell := hd.inChar_iff.mp hrect
    obtain ⟨hy, hx⟩ := hcell.unique hin.cell
    rw [hchar.inside col row hlow hhigh hrect,
      if_pos ⟨hrect, hd.inside y x hcell⟩, ← hy, ← hx]
    rfl
  · rw [hchar.outside col row hlow hhigh hrect,
      if_neg fun hand => hrect hand.1]
    exact h y' x' col row hin

/-- The pixel above, in the cell above. -/
theorem aboveBar_succ {y x : Nat} {col row : Int} :
    AboveBar g (y + 1) x col (row + g.ch) ↔ AboveBar g y x col row := by
  have hnext := strip_succ y g.ch
  constructor
  · rintro ⟨hcell, habove⟩
    exact ⟨Grid.inCell_succ.mp hcell, by omega⟩
  · rintro ⟨hcell, habove⟩
    exact ⟨Grid.inCell_succ.mpr hcell, by omega⟩

theorem cellInk_succ (o : Option UInt8) {y x : Nat} {col row : Int} :
    cellInk glyph g o (y + 1) x col (row + g.ch)
      = cellInk glyph g o y x col row := by
  have hrow : row + g.ch - (g.oy + ((y + 1 : Nat) : Int) * g.ch)
      = row - (g.oy + y * g.ch) := by
    rw [strip_succ]
    omega
  unfold cellInk
  cases o with
  | none => rfl
  | some b =>
      unfold charInk
      dsimp only
      rw [hrow]

/-- The pixels move up with their marks. -/
theorem Painted.scrollUp (h : Painted rows cols glyph g s p) (hd : Drawable rows cols s g) :
    Painted rows cols glyph g
      (lfbScrollUp s g.ox g.oy (g.cols * g.cw) (g.rows * g.ch) g.ch g.bg)
      ((LfbCall.scrollUp g.ox g.oy (g.cols * g.cw) (g.rows * g.ch) g.ch g.bg).mark
        s p) := by
  intro y x col row hin
  have hch := hd.ch
  have hscale := hd.scale
  obtain ⟨hlow, hhigh⟩ := hd.in_rows hin.cell
  obtain ⟨last, hlast⟩ : ∃ last, rows = last + 1 :=
    Nat.exists_eq_succ_of_ne_zero (Nat.ne_of_gt y.pos)
  have hall : g.rows * g.ch = last * g.ch + g.ch := by
    rw [hd.rows, hlast, strip_succ]
  have hpos : 0 ≤ (last : Int) * g.ch := Int.mul_nonneg (by omega) (by omega)
  have harea := hd.area hin.cell y.isLt
  rw [← hd.rows] at harea
  have hscroll := lfbScrollUp_paints hd.fits_area
    (show 0 ≤ g.ch by omega) (by omega) g.bg
  rw [hscroll.inside col row hlow hhigh harea]
  unfold LfbCall.mark
  dsimp only
  by_cases hmoved : InRect g.ox g.oy (g.cols * g.cw)
      (g.rows * g.ch - g.ch) col row
  · have hy : y.val + 1 < rows := by
      obtain ⟨-, -, -, hbottom⟩ := hmoved
      obtain ⟨-, -, htop, -⟩ := inCell_iff.mp hin.cell
      by_contra hlow
      have hy' : y.val = last := by omega
      rw [hy'] at htop
      omega
    have hbelow := h ⟨y.val + 1, hy⟩ x col (row + g.ch)
      (aboveBar_succ.mpr hin)
    rw [if_pos hmoved, if_pos hmoved, hbelow]
    exact cellInk_succ _
  · have hbottom : InRect g.ox (g.oy + g.rows * g.ch - g.ch)
        (g.cols * g.cw) g.ch col row := by
      unfold InRect at hmoved harea ⊢
      omega
    rw [if_neg hmoved, if_neg hmoved,
      if_pos ⟨hbottom, hd.inside y x hin.cell⟩]
    rfl

/-- The whole area is blank. -/
theorem blank_painted (glyph : Glyphs) (p : Plane) (hd : Drawable rows cols s g) :
    Painted rows cols glyph g
      (lfbFill s g.ox g.oy (g.cols * g.cw) (g.rows * g.ch) g.bg)
      ((LfbCall.blank g.ox g.oy (g.cols * g.cw) (g.rows * g.ch) g.bg).mark s p) := by
  intro y x col row hin
  obtain ⟨hlow, hhigh⟩ := hd.in_rows hin.cell
  have harea := hd.area hin.cell y.isLt
  rw [← hd.rows] at harea
  rw [(lfbFill_paints hd.fits_area g.bg).inside col row hlow hhigh harea]
  unfold LfbCall.mark
  dsimp only
  rw [if_pos ⟨harea, hd.inside y x hin.cell⟩]
  rfl

/-- Drawing leaves a framebuffer to draw on. -/
theorem Drawable.run (hd : Drawable rows cols s g) (glyph : Glyphs)
    (call : LfbCall) :
    Drawable rows cols (call.run glyph s) g := by
  have hsize := call.run_grows glyph s
  have hpitch : (call.run glyph s).pitchPx = s.pitchPx := by
    cases call with
    | blank x y w h rgb => apply lfbFill_pitch
    | bar x y w h rgb => apply lfbFill_pitch
    | char x y ch fg bg scale => apply lfbChar_pitch
    | scrollUp x y w h dy fill => apply lfbScrollUp_pitch
  refine { hd with right := ?_, bottom := ?_, wide := ?_ }
  · rw [hsize.W]
    exact hd.right
  · rw [hsize.H]
    exact hd.bottom
  · rw [hsize.W, hpitch]
    exact hd.wide

/-- A mark reads only the size of the framebuffer. -/
theorem mark_size {s₀ : Lfb} (hsize : Grows s₀ s) (call : LfbCall) :
    call.mark s p = call.mark s₀ p := by
  cases call with
  | blank x y w h rgb => simp only [LfbCall.mark, hsize.inside_iff]
  | bar x y w h rgb => rfl
  | char x y ch fg bg scale => simp only [LfbCall.mark, hsize.inside_iff]
  | scrollUp x y w h dy fill => simp only [LfbCall.mark, hsize.inside_iff]

/-- The step lemma. -/
theorem Painted.step (h : Painted rows cols glyph g s p) (hd : Drawable rows cols s g)
    {call : LfbCall} (hcall : Placed rows cols g call) :
    Painted rows cols glyph g (call.run glyph s) (call.mark s p) := by
  cases hcall with
  | blank => exact blank_painted glyph p hd
  | bar y x rgb => exact h.bar hd y x rgb
  | char y x c => exact h.char hd y x c
  | scrollUp => exact h.scrollUp hd

/-- The run lemma, over the calls of one step. -/
theorem Painted.run {s₀ : Lfb} (hsize : Grows s₀ s)
    (h : Painted rows cols glyph g s p) (hd : Drawable rows cols s g) {calls : List LfbCall}
    (hcalls : ∀ call ∈ calls, Placed rows cols g call) :
    Painted rows cols glyph g (runCalls glyph s calls) (markCalls s₀ p calls) := by
  induction calls generalizing s p with
  | nil => exact h
  | cons call calls ih =>
      obtain ⟨hcall, hrest⟩ := List.forall_mem_cons.mp hcalls
      have hstep := h.step hd hcall
      rw [mark_size hsize] at hstep
      exact ih (hsize.trans (call.run_grows glyph s)) hstep (hd.run glyph call)
        hrest

end Call

-- ==================================================== the calls of the console

section Console

variable {rows cols : Nat} {s : Lfb} {g g' : Gcon} {p : Plane}
  {t : Terminal rows cols UInt8}

/-- The console with another framebuffer and its cursor elsewhere. -/
def Moves (g g' : Gcon) : Prop :=
  ∃ lfb cx cy, g' = { g with lfb := lfb, cx := cx, cy := cy }

theorem newline_moves (g : Gcon) : Moves g (newline g) := by
  unfold newline
  dsimp only
  split
  · exact ⟨_, _, _, rfl⟩
  · exact ⟨_, _, _, rfl⟩

theorem switch_moves (glyph : Glyphs) (g : Gcon) (c : Int8) :
    Moves g (putcSwitch glyph g c) := by
  have hnl : ∀ {g' : Gcon}, Moves g g' → Moves g (newline g') := by
    rintro g' ⟨lfb, cx, cy, rfl⟩
    obtain ⟨lfb', cx', cy', h⟩ :=
      newline_moves { g with lfb := lfb, cx := cx, cy := cy }
    exact ⟨lfb', cx', cy', h⟩
  unfold putcSwitch
  split
  · exact newline_moves g
  split
  · exact ⟨_, _, _, rfl⟩
  split
  · split
    · exact hnl ⟨_, _, _, rfl⟩
    · exact ⟨_, _, _, rfl⟩
  split
  · split
    · exact ⟨_, _, _, rfl⟩
    · exact ⟨_, _, _, rfl⟩
  · split
    · exact hnl ⟨_, _, _, rfl⟩
    · exact ⟨_, _, _, rfl⟩

theorem gconPutc_moves (glyph : Glyphs) (g : Gcon) (c : Int8) :
    Moves g (gconPutc glyph g c) := by
  by_cases hactive : g.active
  · obtain ⟨lfb, cx, cy, h⟩ := switch_moves glyph (cursorErase g) c
    rw [gconPutc_eq hactive, h]
    exact ⟨_, _, _, rfl⟩
  · unfold gconPutc
    rw [if_pos hactive]
    exact ⟨_, _, _, rfl⟩

theorem Moves.placed (h : Moves g g') {call : LfbCall}
    (hcall : Placed rows cols g' call) : Placed rows cols g call := by
  obtain ⟨lfb, cx, cy, rfl⟩ := h
  cases hcall with
  | blank => exact .blank
  | bar y x rgb => exact .bar y x rgb
  | char y x c => exact .char y x c
  | scrollUp => exact .scrollUp

theorem Moves.painted {glyph : Glyphs} (h : Moves g g')
    (hp : Painted rows cols glyph g s p) : Painted rows cols glyph g' s p := by
  obtain ⟨lfb, cx, cy, rfl⟩ := h
  intro y x col row hin
  exact hp y x col row ⟨hin.cell, hin.above⟩

theorem Moves.drawable (h : Moves g g') (hd : Drawable rows cols s g) :
    Drawable rows cols s g' := by
  obtain ⟨lfb, cx, cy, rfl⟩ := h
  exact { hd with }

/-- The bar at the cursor. -/
theorem FollowsAs.bar_placed (h : FollowsAs s g p t) (rgb : UInt32) :
    Placed rows cols g (barCall g rgb) := by
  unfold barCall
  rw [h.cx, h.cy]
  exact .bar t.row t.col rgb

/-- A character at the cursor. -/
theorem FollowsAs.char_placed (h : FollowsAs s g p t) (c : Int8) :
    Placed rows cols g (charCall g c) := by
  unfold charCall
  rw [h.cx, h.cy]
  exact .char t.row t.col c

/-- The scroll of a newline. -/
theorem newline_placed (g : Gcon) :
    ∀ call ∈ newlineCalls g, Placed rows cols g call := by
  unfold newlineCalls
  split
  · intro call hcall
    rw [List.mem_singleton.mp hcall]
    exact .scrollUp
  · intro call hcall
    cases hcall

theorem FollowsAs.switch_placed (h : FollowsAs s g p t) (c : Int8) :
    ∀ call ∈ switchCalls g c, Placed rows cols g call := by
  have hcx := h.cx
  have hnl : ∀ call ∈ newlineCalls g, Placed rows cols g call :=
    newline_placed g
  have hnone : ∀ call ∈ ([] : List LfbCall), Placed rows cols g call := by
    intro call hcall
    cases hcall
  unfold switchCalls
  split
  · exact hnl
  split
  · exact hnone
  split
  · split
    · exact hnl
    · exact hnone
  split
  · split
    · next hpos =>
        intro call hcall
        rw [List.mem_singleton.mp hcall]
        have hback := h.back (show t.col.val ≠ 0 by omega)
        exact Moves.placed ⟨_, _, _, rfl⟩ (hback.char_placed 0x20)
    · exact hnone
  · intro call hcall
    rcases List.mem_cons.mp hcall with rfl | hrest
    · exact h.char_placed c
    · split at hrest
      · exact hnl call hrest
      · exact hnone call hrest

/-- All the calls of a character. -/
theorem FollowsAs.putc_placed (h : FollowsAs s g p t) (glyph : Glyphs)
    {c : Int8} (hwide : c = 9 → cols ≤ 80) :
    ∀ call ∈ putcCalls g glyph c, Placed rows cols g call := by
  unfold putcCalls
  rw [if_neg (not_not.mpr h.active)]
  intro call hcall
  rcases List.mem_cons.mp hcall with rfl | hrest
  · exact h.bar_placed g.bg
  rcases List.mem_append.mp hrest with hswitch | hlast
  · exact h.switch_placed c call hswitch
  · rw [List.mem_singleton.mp hlast]
    have hlater := h.putc glyph hwide
    exact (gconPutc_moves glyph g c).placed (hlater.bar_placed _)

end Console

-- =================================================================== the run

section Run

variable {rows cols : Nat} {glyph : Glyphs} {r : Traced}
  {t : Terminal rows cols UInt8}

/-- The traced console follows the screen and has drawn it. -/
structure Traced.Draws (glyph : Glyphs) (r : Traced)
    (t : Terminal rows cols UInt8) : Prop where
  follows : r.FollowsAs t
  drawable : Drawable rows cols r.gcon.lfb r.gcon
  painted : Painted rows cols glyph r.gcon r.gcon.lfb r.plane

/-- So the screen shows its characters. -/
theorem Traced.Draws.depicts (h : r.Draws glyph t) (y : Fin rows)
    (x : Fin cols) : r.gcon.Depicts glyph y x (t.cell y x) := by
  intro col row hin
  exact ⟨r.plane col row, h.follows.tiled y x col row hin.cell,
    h.painted y x col row hin⟩

theorem Drawable.runCalls {s : Lfb} {g : Gcon} (hd : Drawable rows cols s g)
    (glyph : Glyphs) (calls : List LfbCall) :
    Drawable rows cols (runCalls glyph s calls) g := by
  induction calls generalizing s with
  | nil => exact hd
  | cons call calls ih => exact ih (hd.run glyph call)

/-- A character keeps the picture. -/
theorem Traced.Draws.putc (h : r.Draws glyph t) {c : Int8}
    (hwide : c = 9 → cols ≤ 80) :
    (r.putc glyph c).Draws glyph (t.feed 0x20 id c.toUInt8) := by
  have hmoves := gconPutc_moves glyph r.gcon c
  have hplaced := Gui.FollowsAs.putc_placed h.follows glyph hwide
  have hcalls := gconPutc_calls glyph r.gcon c
  refine ⟨h.follows.putc glyph hwide, ?_, ?_⟩
  · show Drawable rows cols (gconPutc glyph r.gcon c).lfb _
    rw [hcalls]
    exact hmoves.drawable (h.drawable.runCalls glyph _)
  · show Painted rows cols glyph _ (gconPutc glyph r.gcon c).lfb _
    rw [hcalls]
    exact hmoves.painted
      (h.painted.run (Grows.refl _) h.drawable hplaced)

/-- What `gcon_init` is given so that everything it draws is seen: a scale,
rows of the framebuffer that do not overlap, and a background that
`lfb_char` draws. -/
structure Visible (s : Lfb) (scale : Int) (b : UInt32) : Prop where
  scale : 0 < scale
  wide : s.W ≤ s.pitchPx
  bg : b < 0x80000000

/-- A console just opened, on whatever was there. -/
theorem Traced.init_draws (glyph : Glyphs) (r : Traced)
    {x y scale : Int} (f : UInt32) {b : UInt32} (hrows : 0 < rows)
    (hcols : 0 < cols) (harea : ContainedAs rows cols r.gcon.lfb x y scale)
    (hvisible : Visible r.gcon.lfb scale b) :
    (r.init x y cols rows scale f b).Draws glyph
      (clear (0x20 : UInt8) hrows hcols) := by
  have hfollows := r.init_followsAs f b hrows hcols harea
  obtain ⟨hleft, hright, htop, hbottom⟩ := harea
  have hd : Drawable rows cols r.gcon.lfb
      (r.init x y cols rows scale f b).gcon :=
    ⟨⟨rfl, rfl, rfl, rfl, rfl, hleft, hright, htop, hbottom⟩,
      hvisible.wide, hvisible.scale, hvisible.bg⟩
  let g := (r.init x y cols rows scale f b).gcon
  have hbar := Gui.FollowsAs.bar_placed hfollows g.accent
  have hblank := blank_painted glyph r.plane hd
  exact ⟨hfollows,
    hd.runCalls glyph (initCalls r.gcon x y cols rows scale f b),
    hblank.step (hd.run glyph (.blank _ _ _ _ b)) hbar⟩

end Run

end Thuos.Gui
