/-
The strokes of Paint.

A call of `app_paint_motion` either ends the stroke, outside of the canvas,
or draws discs at the points of `strokePoints`: one where a stroke begins,
and otherwise those that divide the way from the last point
(`appPaintMotion_eq`). They are a digital line, so they are between the two
points; both are at least 4 pixels inside the canvas, and a disc of radius
3 around a point between them is inside too (`motion_within`). All of them
have one colour, so a later one leaves the earlier ones as they are and the
whole stroke is seen (`discs_inked`). That the last point is on the canvas, or that there is none, holds through the
clicks and the motions of every session (`PaintOpened`).
-/
import Thuos.Gui.Paint
import Thuos.Lib.DigitalLine
import Thuos.Video.Proofs.Shapes

namespace Thuos.Gui

open DigitalLine Loop Machine Video Word32

-- ========================================================== what is stated

/-- The pixel is on the canvas of a window. -/
def OnCanvas (x y w h col row : Int) : Prop :=
  InRect (x + 16) (y + 70) (w - 32) (h - 140) col row

/-- The products of the interpolation are `int`s. -/
def StrokeInts (a b : Int × Int) : Prop :=
  ∀ i, 0 ≤ i → i ≤ paintSteps (b.1 - a.1) (b.2 - a.2) →
    InInt ((b.1 - a.1) * i) ∧ InInt ((b.2 - a.2) * i)

/-- Discs at the points, one after another. -/
def stroke (p : Paint) (ps : List (Int × Int)) : Paint :=
  ps.foldl (fun p c => paintDisc p c.1 c.2) p

/-- The discs of radius 3 at the points have the colour, as far as they are
on the screen. -/
def Inked (rgb : UInt32) (ps : List (Int × Int)) (s : Lfb) : Prop :=
  ∀ c ∈ ps, ∀ col row, InDisc c.1 c.2 3 col row → s.Inside (col, row) →
    s.read col row = rgb

/-- From each point on the canvas to the next one, if a motion there
follows a motion here, the discs are at the points of a digital line, and
on the screen they have the colour that was picked. -/
def Solid (q : Paint) : Prop :=
  ∀ a b : Int × Int, 0 ≤ a.1 → 0 ≤ a.2 → paInCanvas q a.1 a.2 →
    paInCanvas q b.1 b.2 →
    ∃ ps, Line a b ps ∧ StrokeInts a b
      ∧ appPaintMotion (appPaintMotion q a.1 a.2) b.1 b.2
        = { stroke (appPaintMotion q a.1 a.2) ps with
            paLx := b.1, paLy := b.2 }
      ∧ Inked q.paCol ps
        (appPaintMotion (appPaintMotion q a.1 a.2) b.1 b.2).lfb

/-- From `q` on, a click or a motion writes to pixels of the canvas only. -/
def Confined (x y w h : Int) (q : Paint) : Prop :=
  ∀ op : PaintOp,
    Within (fun col row => OnCanvas x y w h col row
      ∧ q.lfb.Inside (col, row)) q.lfb (op.step q).lfb

/-- The pixels of the screen `s` that are not on the canvas keep their
colour. -/
def KeepsRest (x y w h : Int) (s : Lfb) (q : Paint) : Prop :=
  ∀ (op : PaintOp) (col row : Int), s.Inside (col, row) →
    ¬ OnCanvas x y w h col row →
    (op.step q).lfb.read col row = q.lfb.read col row

/-- The points at which a motion on the canvas draws. -/
def strokePoints (p : Paint) (mx my : Int) : List (Int × Int) :=
  if p.paLx < 0 then [(mx, my)]
  else
    interpolate (p.paLx, p.paLy) (mx, my)
      (paintSteps (mx - p.paLx) (my - p.paLy)).toNat

-- ================================================================ one motion

section Motion

variable {p : Paint} {mx my : Int}

/-- A stroke draws and logs, and leaves the rest. -/
theorem stroke_eq (p : Paint) (ps : List (Int × Int)) :
    stroke p ps
      = { p with
          lfb := ps.foldl (fun s c => lfbDisc s c.1 c.2 3 p.paCol) p.lfb
          discs := p.discs ++ ps } := by
  induction ps generalizing p with
  | nil =>
      show p = { p with lfb := p.lfb, discs := p.discs ++ [] }
      rw [List.append_nil]
  | cons c ps ih =>
      show stroke (paintDisc p c.1 c.2) ps = _
      rw [ih]
      unfold paintDisc
      simp only [List.append_assoc, List.singleton_append, List.foldl_cons]

theorem stroke_snoc (p : Paint) (ps : List (Int × Int)) (c : Int × Int) :
    stroke p (ps ++ [c]) = paintDisc (stroke p ps) c.1 c.2 := by
  unfold stroke
  rw [List.foldl_append]
  rfl

theorem paintSteps_ge (dx dy : Int) :
    1 ≤ paintSteps dx dy ∧ |dx| ≤ paintSteps dx dy
      ∧ |dy| ≤ paintSteps dx dy := by
  unfold paintSteps
  dsimp only
  rw [abs_le, abs_le]
  refine ⟨?_, ?_, ?_⟩ <;> omega

/-- The loop is a stroke through the points between. -/
theorem interpolation_loop (p : Paint) (mx my : Int) {n : Nat} :
    upTo (n + 1) (fun q (i : Nat) =>
        paintDisc q (q.paLx + ((mx - p.paLx) * i).tdiv n)
          (q.paLy + ((my - p.paLy) * i).tdiv n)) p
      = stroke p (interpolate (p.paLx, p.paLy) (mx, my) n) := by
  unfold interpolate
  refine upTo_inv (fun k q => q = stroke p ((List.range k).map
    fun (i : Nat) => (between p.paLx mx n i, between p.paLy my n i)))
    rfl fun i _ q hq => ?_
  have hlast : q.paLx = p.paLx ∧ q.paLy = p.paLy := by
    rw [hq, stroke_eq]
    exact ⟨rfl, rfl⟩
  rw [List.range_succ, List.map_append, List.map_singleton, stroke_snoc,
    ← hq, hlast.1, hlast.2]
  rfl

/-- What a motion does. -/
theorem appPaintMotion_eq (p : Paint) (mx my : Int) :
    appPaintMotion p mx my
      = if paInCanvas p mx my then
          { stroke p (strokePoints p mx my) with paLx := mx, paLy := my }
        else { p with paLx := -1 } := by
  unfold appPaintMotion strokePoints
  dsimp only
  by_cases hin : paInCanvas p mx my
  · rw [if_neg (not_not.mpr hin), if_pos hin]
    by_cases hfirst : p.paLx < 0
    · rw [if_pos hfirst, if_pos hfirst]
      rfl
    · rw [if_neg hfirst, if_neg hfirst]
      obtain ⟨hsteps, -, -⟩ := paintSteps_ge (mx - p.paLx) (my - p.paLy)
      have hturns : (paintSteps (mx - p.paLx) (my - p.paLy) + 1).toNat
          = (paintSteps (mx - p.paLx) (my - p.paLy)).toNat + 1 := by omega
      have hloop := interpolation_loop p mx my
        (n := (paintSteps (mx - p.paLx) (my - p.paLy)).toNat)
      rw [← hturns, Int.toNat_of_nonneg (by omega)] at hloop
      rw [hloop]
  · rw [if_pos hin, if_neg hin]

/-- The points from a last point on are a line from there. -/
theorem strokePoints_line (hlast : 0 ≤ p.paLx) (mx my : Int) :
    Line (p.paLx, p.paLy) (mx, my) (strokePoints p mx my) := by
  obtain ⟨hsteps, hcol, hrow⟩ :=
    paintSteps_ge (mx - p.paLx) (my - p.paLy)
  unfold strokePoints
  rw [if_neg (by omega)]
  refine interpolate_line (by omega) ?_ ?_
  · rw [Int.toNat_of_nonneg (by omega)]
    exact hcol
  · rw [Int.toNat_of_nonneg (by omega)]
    exact hrow

end Motion

-- =============================================================== the canvas

section Canvas

variable {p : Paint} {x y w h : Int} {s : Lfb}

/-- Paint in a window, on the screen `s`: where its canvas is, and that the
last point, if there is one, is on it. -/
structure PaintOpened (x y w h : Int) (s : Lfb) (p : Paint) : Prop where
  cx : p.paCx = x + 16
  cy : p.paCy = y + 70
  cw : p.paCw = w - 32
  ch : p.paCh = h - 140
  last : p.paLx < 0 ∨ paInCanvas p p.paLx p.paLy
  drawn : Draws s p.lfb

/-- The points between two points of the canvas are on it, with the same
margin. -/
theorem strokePoints_inCanvas {mx my : Int}
    (hlast : p.paLx < 0 ∨ paInCanvas p p.paLx p.paLy)
    (hin : paInCanvas p mx my) :
    ∀ c ∈ strokePoints p mx my, paInCanvas p c.1 c.2 := by
  intro c hc
  by_cases hfirst : p.paLx < 0
  · unfold strokePoints at hc
    rw [if_pos hfirst, List.mem_singleton] at hc
    rw [hc]
    exact hin
  · have hfrom := hlast.resolve_left hfirst
    obtain ⟨hcol, hrow⟩ := (strokePoints_line (by omega) mx my).box c hc
    unfold Between at hcol hrow
    unfold paInCanvas at *
    dsimp only at hcol hrow
    omega

/-- Discs at points of the canvas stay on the canvas. -/
theorem discs_within {ps : List (Int × Int)} (rgb : UInt32)
    (hps : ∀ c ∈ ps, paInCanvas p c.1 c.2) (t : Lfb) :
    Within (Seen t p.paCx p.paCy p.paCw p.paCh) t
      (ps.foldl (fun s c => lfbDisc s c.1 c.2 3 rgb) t) := by
  induction ps generalizing t with
  | nil => exact Within.refl _ t
  | cons c ps ih =>
      have hc := hps c List.mem_cons_self
      have hdisc : Within (Seen t p.paCx p.paCy p.paCw p.paCh) t
          (lfbDisc t c.1 c.2 3 rgb) := by
        refine (lfbDisc_within t c.1 c.2 (by omega) rgb).mono ?_
        intro col row hin
        obtain ⟨⟨hl, hr, ht, hb⟩, hscreen⟩ := hin
        unfold paInCanvas at hc
        refine ⟨⟨?_, ?_, ?_, ?_⟩, hscreen⟩ <;> omega
      have hrest := ih (fun d hd => hps d (List.mem_cons_of_mem c hd))
        (lfbDisc t c.1 c.2 3 rgb)
      refine hdisc.trans (hrest.mono fun col row hin => ?_)
      exact (hdisc.seen ..).mp hin

/-- Discs of one colour, one after another, all have it in the end. -/
theorem discs_inked (rgb : UInt32) (ps : List (Int × Int)) (t : Lfb) :
    Inks rgb t (ps.foldl (fun s c => lfbDisc s c.1 c.2 3 rgb) t)
      ∧ Inked rgb ps (ps.foldl (fun s c => lfbDisc s c.1 c.2 3 rgb) t) := by
  induction ps generalizing t with
  | nil => exact ⟨Inks.refl t, fun c hc => nomatch hc⟩
  | cons c ps ih =>
      obtain ⟨hdisc, hread⟩ := lfbDisc_inks t c.1 c.2 (r := 3) (by omega) rgb
      obtain ⟨hrest, hinked⟩ := ih (lfbDisc t c.1 c.2 3 rgb)
      have hinks := hdisc.trans hrest
      refine ⟨hinks, fun d hd col row hin hinside => ?_⟩
      cases List.mem_cons.mp hd with
      | inl heq =>
          -- the later discs do not take the colour away
          subst heq
          exact hrest.read (hread col row hin ((hinks.inside _).mp hinside))
      | inr hmem => exact hinked d hmem col row hin hinside

/-- A motion stays on the canvas. -/
theorem motion_within (hlast : p.paLx < 0 ∨ paInCanvas p p.paLx p.paLy)
    (mx my : Int) :
    Within (Seen p.lfb p.paCx p.paCy p.paCw p.paCh) p.lfb
      (appPaintMotion p mx my).lfb := by
  rw [appPaintMotion_eq]
  by_cases hin : paInCanvas p mx my
  · rw [if_pos hin, stroke_eq]
    exact discs_within p.paCol (strokePoints_inCanvas hlast hin) p.lfb
  · rw [if_neg hin]
    exact Within.refl _ p.lfb

/-- Paint is open after a motion. -/
theorem PaintOpened.motion (ho : PaintOpened x y w h s p) (mx my : Int) :
    PaintOpened x y w h s (appPaintMotion p mx my) := by
  have hdrawn := (motion_within ho.last mx my).draws
  rw [appPaintMotion_eq] at hdrawn ⊢
  by_cases hin : paInCanvas p mx my
  · rw [if_pos hin, stroke_eq] at hdrawn ⊢
    exact ⟨ho.cx, ho.cy, ho.cw, ho.ch, Or.inr hin, ho.drawn.trans hdrawn⟩
  · rw [if_neg hin]
    exact ⟨ho.cx, ho.cy, ho.cw, ho.ch, Or.inl neg_one_lt_zero, ho.drawn⟩

/-- The end of the stroke. -/
theorem PaintOpened.lift (ho : PaintOpened x y w h s p) :
    PaintOpened x y w h s { p with paLx := -1 } :=
  ⟨ho.cx, ho.cy, ho.cw, ho.ch, Or.inl neg_one_lt_zero, ho.drawn⟩

theorem PaintOpened.colour (ho : PaintOpened x y w h s p) (c : UInt32) :
    PaintOpened x y w h s { p with paCol := c } := { ho with }

/-- A click or a motion stays on the canvas, and Paint is open after it. -/
theorem PaintOpened.step (ho : PaintOpened x y w h s p) (op : PaintOp) :
    PaintOpened x y w h s (op.step p)
      ∧ Within (Seen p.lfb (x + 16) (y + 70) (w - 32) (h - 140)) p.lfb
        (op.step p).lfb := by
  have hseen : Seen p.lfb p.paCx p.paCy p.paCw p.paCh
      = Seen p.lfb (x + 16) (y + 70) (w - 32) (h - 140) := by
    rw [ho.cx, ho.cy, ho.cw, ho.ch]
  rw [← hseen]
  cases op with
  | motion mx my => exact ⟨ho.motion mx my, motion_within ho.last mx my⟩
  | click mx my =>
      show PaintOpened x y w h s (appPaintClick p mx my)
        ∧ Within _ p.lfb (appPaintClick p mx my).lfb
      unfold appPaintClick
      dsimp only
      split
      · exact ⟨ho.lift.colour _, Within.refl _ p.lfb⟩
      · split
        · have hclear := lfbRoundFill_within p.lfb p.paCx p.paCy p.paCw
            p.paCh 8 0xf3f5fa
          exact ⟨{ ho.lift with drawn := ho.drawn.trans hclear.draws },
            hclear⟩
        · exact ⟨ho.lift.motion mx my, motion_within ho.lift.last mx my⟩

/-- The swatches change nothing but the framebuffer. -/
theorem PaintOpened.swatches (ho : PaintOpened x y w h s p) :
    PaintOpened x y w h s (paintSwatches p) := by
  unfold paintSwatches
  refine upTo_inv (fun _ q => PaintOpened x y w h s q) ho fun i _ q hq => ?_
  dsimp only
  have hbox := hq.drawn.trans (lfbRoundFill_within q.lfb
    (q.paPx + i * (q.paSw + q.paGap)) q.paPy q.paSw q.paSw 8
    (PA_PAL.getD i 0)).draws
  split
  · exact { hq with drawn := hbox.trans (lfbRect_draws ..) }
  · exact { hq with drawn := hbox }

theorem PaintOpened.clear (ho : PaintOpened x y w h s p)
    (glyph : UInt8 → Nat → UInt8) (x' w' : Int) :
    PaintOpened x y w h s (paintClear glyph p x' w') := by
  have hbutton := ho.drawn.trans (lfbRoundFill_within p.lfb
    (x' + w' - 16 - 90) p.paPy 90 40 8 CARD2).draws
  have hlabel := hbutton.trans (lfbText_draws _ (x' + w' - 16 - 90 + 16)
    (p.paPy + 4) glyph (CStr.ofString "Clear") TXT_HI (-1) 2)
  have hlast := ho.last
  unfold paInCanvas at hlast
  unfold paintClear
  dsimp only
  exact ⟨ho.cx, ho.cy, ho.cw, ho.ch, hlast, hlabel⟩

theorem paintOpened (glyph : UInt8 → Nat → UInt8) (p : Paint) (x y w h : Int) :
    PaintOpened x y w h p.lfb (appPaintOpen glyph p x y w h) := by
  have hpanel : Draws p.lfb (paintHeading glyph p.lfb x y w h) :=
    ((lfbFill_within p.lfb x y w h PANEL_BG).draws.trans
      (lfbText_draws ..)).trans (lfbText_draws ..)
  have hcanvas := hpanel.trans (lfbRoundFill_within _ (x + 16) (y + 70)
    (w - 32) (h - 70 - 70) 8 0xf3f5fa).draws
  have hplaced : PaintOpened x y w h p.lfb
      { paintCanvas
          { p with
            paLx := -1, paLy := -1, lfb := paintHeading glyph p.lfb x y w h
            paCx := x + 16, paCy := y + 70, paCw := w - 32
            paCh := h - 70 - 70 } with
        paSw := 40, paGap := 12, paPx := x + 16
        paPy := y + 70 + (h - 70 - 70) + 14 } :=
    ⟨rfl, rfl, rfl, by show h - 70 - 70 = h - 140; omega,
      Or.inl neg_one_lt_zero, hcanvas⟩
  exact (hplaced.swatches.colour (PA_PAL.getD 6 0)).clear glyph x w

theorem paintOpened_run (glyph : UInt8 → Nat → UInt8) (p : Paint)
    (x y w h : Int) (ops : List PaintOp) :
    PaintOpened x y w h p.lfb (paintRun glyph p x y w h ops) :=
  exec_inv' _ (fun _ op ho => (ho.step op).1) (paintOpened glyph p x y w h)

end Canvas

-- =============================================================== the claim

section Claim

variable {q : Paint} {x y w h : Int} {s : Lfb}

/-- Two points of a canvas of at most 32767 by 32767 pixels. -/
theorem strokeInts {a b : Int × Int} (hw : q.paCw ≤ 32767)
    (hh : q.paCh ≤ 32767) (ha : paInCanvas q a.1 a.2)
    (hb : paInCanvas q b.1 b.2) : StrokeInts a b := by
  intro i hi hin
  unfold paInCanvas at ha hb
  have hsteps : paintSteps (b.1 - a.1) (b.2 - a.2) ≤ 32767 := by
    unfold paintSteps
    dsimp only
    omega
  have hprod : ∀ d : Int, |d| ≤ 32767 → InInt (d * i) := by
    intro d hd
    have habs : |d * i| ≤ 32767 * 32767 := by
      rw [abs_mul, abs_of_nonneg hi]
      exact Int.mul_le_mul hd (by omega) hi (by omega)
    rw [abs_le] at habs
    unfold InInt
    omega
  refine ⟨hprod _ ?_, hprod _ ?_⟩
  · rw [abs_le]
    omega
  · rw [abs_le]
    omega

theorem PaintOpened.solid (ho : PaintOpened x y w h s q) (hw : w - 32 ≤ 32767)
    (hh : h - 140 ≤ 32767) : Solid q := by
  intro a b ha ha' hina hinb
  have hints : StrokeInts a b :=
    strokeInts (ho.cw ▸ hw) (ho.ch ▸ hh) hina hinb
  generalize hr : appPaintMotion q a.1 a.2 = r
  -- the first motion leaves its point, and the canvas
  rw [appPaintMotion_eq, if_pos hina, stroke_eq] at hr
  have hlx : r.paLx = a.1 := by rw [← hr]
  have hly : r.paLy = a.2 := by rw [← hr]
  have hcol : r.paCol = q.paCol := by rw [← hr]
  have hinr : paInCanvas r b.1 b.2 := by
    rw [← hr]
    exact hinb
  have hmotion := appPaintMotion_eq r b.1 b.2
  rw [if_pos hinr] at hmotion
  refine ⟨strokePoints r b.1 b.2, ?_, hints, hmotion, ?_⟩
  · have hline := strokePoints_line (p := r) (by omega) b.1 b.2
    rw [hlx, hly] at hline
    exact hline
  · rw [hmotion, stroke_eq, ← hcol]
    exact (discs_inked r.paCol (strokePoints r b.1 b.2) r.lfb).2

theorem PaintOpened.keepsRest (ho : PaintOpened x y w h s q)
    (hwide : s.W ≤ s.pitchPx) : KeepsRest x y w h s q := by
  intro op col row hin hout
  obtain ⟨hlow, hhigh, -⟩ := hin
  dsimp only at hlow hhigh
  have hW := ho.drawn.W
  have hpitch := ho.drawn.pitch
  have hcols : ∀ col row, OnCanvas x y w h col row
      ∧ q.lfb.Inside (col, row) → 0 ≤ col ∧ col < q.lfb.pitchPx := by
    intro col row hseen
    obtain ⟨h0, hright, -⟩ := hseen.2
    dsimp only at h0 hright
    omega
  refine (ho.step op).2.read hcols hlow (by omega) fun hseen => ?_
  exact hout hseen.1

end Claim

/-- After any clicks and motions in a window whose canvas is at most 32767
pixels wide and high, strokes are solid, their discs in the colour that was
picked wherever they are on the screen; and no click and no motion writes
to a pixel outside of the canvas, or changes one, if no row of the screen is
longer than the pitch. -/
theorem paint_strokes_solid (glyph : UInt8 → Nat → UInt8) (p : Paint)
    (x y w h : Int) (ops : List PaintOp) (hw : w - 32 ≤ 32767)
    (hh : h - 140 ≤ 32767) :
    Solid (paintRun glyph p x y w h ops)
      ∧ Confined x y w h (paintRun glyph p x y w h ops)
      ∧ (p.lfb.W ≤ p.lfb.pitchPx →
        KeepsRest x y w h p.lfb (paintRun glyph p x y w h ops)) := by
  have ho := paintOpened_run glyph p x y w h ops
  exact ⟨ho.solid hw hh, fun op => (ho.step op).2, ho.keepsRest⟩

/-- A stroke up and to the right, in a window at the origin. -/
theorem paint_strokes_solid_window :
    Solid (paintRun (fun _ _ => 0) (Paint.boot paddedLfb) 0 0 100 200
        [.motion 30 100, .click 45 90])
      ∧ ∃ ps, Line (30, 100) (45, 80) ps := by
  have hsolid := (paint_strokes_solid (fun _ _ => 0) (Paint.boot paddedLfb) 0
    0 100 200 [.motion 30 100, .click 45 90] (by decide) (by decide)).1
  have ho := paintOpened_run (fun _ _ => 0) (Paint.boot paddedLfb) 0 0 100 200
    [.motion 30 100, .click 45 90]
  have hin : ∀ c : Int × Int, 20 ≤ c.1 → c.1 < 80 → 74 ≤ c.2 → c.2 < 126 →
      paInCanvas (paintRun (fun _ _ => 0) (Paint.boot paddedLfb) 0 0 100 200
        [.motion 30 100, .click 45 90]) c.1 c.2 := by
    intro c hl hr ht hb
    unfold paInCanvas
    rw [ho.cx, ho.cy, ho.cw, ho.ch]
    omega
  obtain ⟨ps, hline, -⟩ := hsolid (30, 100) (45, 80) (by decide) (by decide)
    (hin _ (by decide) (by decide) (by decide) (by decide))
    (hin _ (by decide) (by decide) (by decide) (by decide))
  exact ⟨hsolid, ps, hline⟩

end Thuos.Gui
