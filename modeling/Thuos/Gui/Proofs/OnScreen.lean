/-
The graphical console stays on the screen until it scrolls a screen that
is too small.

The region that `desktop_draw` lays out is 768 by 448 pixels, from column
`(W - 820) / 2 + 26` and row 148 on, for any screen. Every fill is clipped,
so as long as the text does not scroll the console touches nothing off the
screen, wherever its region lies (`putc_moved`). The copy of a scroll is
not clipped: it touches the whole region, which is on the screen exactly
when the screen has at least 768 columns and 596 rows
(`scroll_onScreen_iff`).
-/
import Thuos.Gui.Gconsole
import Thuos.Video.Proofs.Clip
import Thuos.Video.Proofs.LfbMapped

namespace Thuos.Gui

open Video Machine

-- ============================================================= the terminal

/-- The geometry of the terminal on a screen of `W` by `H` pixels. -/
structure Geometry (W H : Int) (g : Gcon) : Prop where
  active : g.active = true
  ox : g.ox = (W - 820).tdiv 2 + 26
  oy : g.oy = 148
  cols : g.cols = 48
  rows : g.rows = 14
  cw : g.cw = 16
  ch : g.ch = 32
  width : g.lfb.W = W
  height : g.lfb.H = H

/-- The terminal between two characters: the cursor is in the region. -/
structure TermOk (W H : Int) (g : Gcon) : Prop extends Geometry W H g where
  cx_nonneg : 0 ≤ g.cx
  cx_lt : g.cx < 48
  cy_nonneg : 0 ≤ g.cy
  cy_lt : g.cy < 14

/-- What a step does to the framebuffer: clean drawing, and between it the
scroll of the region if the step scrolls. -/
structure Moved (W H : Int) (g g' : Gcon) (scrolls : Prop) : Prop where
  ok : TermOk W H g'
  clean : ¬ scrolls → Clean g.lfb g'.lfb
  scroll : scrolls → ∃ a, Clean g.lfb a
    ∧ Clean (lfbScrollUp a g.ox g.oy 768 448 32 g.bg) g'.lfb

section Step

variable {W H : Int} {g g' : Gcon} {p : Prop}

theorem moved_of_clean (hok : TermOk W H g') (hclean : Clean g.lfb g'.lfb)
    (hp : ¬ p) : Moved W H g g' p :=
  ⟨hok, fun _ => hclean, fun h => absurd h hp⟩

/-- The region is on the screen exactly when the screen is large enough. -/
theorem region_fits_iff (W : Int) :
    (0 ≤ (W - 820).tdiv 2 + 26 ∧ (W - 820).tdiv 2 + 26 + 768 ≤ W)
      ↔ 768 ≤ W := by
  have htdiv := Int.tdiv_eq_ediv (a := W - 820) (b := 2)
  have hsign : Int.sign 2 = 1 := rfl
  rw [htdiv, hsign]
  split
  · next hexact => omega
  · next hexact => omega

/-- Drawing that keeps the geometry and the cursor. -/
theorem TermOk.redraw (h : TermOk W H g) {t : Lfb} (ht : Clean g.lfb t) :
    TermOk W H { g with lfb := t } :=
  { h with
    width := ht.W.trans h.width
    height := ht.H.trans h.height }

/-- A move of the cursor inside the region. -/
theorem TermOk.cursor (h : TermOk W H g) {x y : Int} (hx : 0 ≤ x)
    (hx' : x < 48) (hy : 0 ≤ y) (hy' : y < 14) :
    TermOk W H { g with cx := x, cy := y } :=
  { h with
    cx_nonneg := hx
    cx_lt := hx'
    cy_nonneg := hy
    cy_lt := hy' }

theorem Moved.draw (h : Moved W H g g' p) :
    Moved W H g (cursorDraw g') p := by
  have hbar : Clean g'.lfb (cursorDraw g').lfb := lfbFill_clean ..
  refine ⟨h.ok.redraw hbar, fun hp => (h.clean hp).trans hbar, fun hp => ?_⟩
  obtain ⟨a, ha, hscroll⟩ := h.scroll hp
  exact ⟨a, ha, hscroll.trans hbar⟩

/-- Clean drawing before the step. -/
theorem Moved.after {t : Lfb} (ht : Clean g.lfb t)
    (h : Moved W H { g with lfb := t } g' p) : Moved W H g g' p := by
  refine ⟨h.ok, fun hp => ht.trans (h.clean hp), fun hp => ?_⟩
  obtain ⟨a, ha, hscroll⟩ := h.scroll hp
  exact ⟨a, ht.trans ha, hscroll⟩

/-- `newline`, from any column. -/
theorem newline_moved (h : TermOk W H g) (x : Int) :
    Moved W H g (newline { g with cx := x }) (g.cy + 1 ≥ g.rows) := by
  have hcy := h.cy_nonneg
  have hcy' := h.cy_lt
  have hrows := h.rows
  unfold newline
  dsimp only
  split
  · next hge =>
      refine ⟨?_, fun hp => absurd hge hp, fun _ => ⟨g.lfb, Clean.refl _, ?_⟩⟩
      · have hgrows := lfbScrollUp_grows g.lfb g.ox g.oy (g.cols * g.cw)
          (g.rows * g.ch) g.ch g.bg
        have hok := h.cursor (x := 0) (y := g.rows - 1) (by omega) (by omega)
          (by omega) (by omega)
        exact { hok with
          width := hgrows.W.trans h.width
          height := hgrows.H.trans h.height }
      · dsimp only
        rw [h.cols, h.cw, h.ch, hrows]
        exact Clean.refl _
  · next hlt =>
      refine moved_of_clean ?_ (Clean.refl _) hlt
      exact h.cursor (by omega) (by omega) (by omega) (by omega)

theorem tabStop_eq {x : Int} (hx : 0 ≤ x) (hx' : x < 80) :
    tabStop x = (x / 4 + 1) * 4 := by
  have hall : ∀ k : Fin 80, tabStop (k.val : Int) = (k.val / 4 + 1) * 4 := by
    decide +kernel
  have hk := hall ⟨x.toNat, by omega⟩
  dsimp only at hk
  rw [Int.toNat_of_nonneg hx] at hk
  exact hk

/-- To a column, and to the next row past the last one. -/
theorem wrap_moved (h : TermOk W H g) {x : Int} (hx : 0 ≤ x) :
    Moved W H g
      (if x ≥ g.cols then newline { g with cx := x } else { g with cx := x })
      (g.cy + 1 ≥ g.rows ∧ x ≥ g.cols) := by
  have hcols := h.cols
  have hnl := newline_moved h x
  split
  · next hge =>
      exact ⟨hnl.ok, fun hp => hnl.clean fun hy => hp ⟨hy, hge⟩,
        fun hp => hnl.scroll hp.1⟩
  · next hlt =>
      refine moved_of_clean ?_ (Clean.refl _) fun hp => hlt hp.2
      exact h.cursor hx (by omega) h.cy_nonneg h.cy_lt

theorem Moved.congr {q : Prop} (h : Moved W H g g' p) (hpq : p ↔ q) :
    Moved W H g g' q :=
  ⟨h.ok, fun hq => h.clean (mt hpq.mp hq), fun hq => h.scroll (hpq.mpr hq)⟩

/-- The switch of `gcon_putc`. -/
def putcSwitch (glyph : UInt8 → Nat → UInt8) (g : Gcon) (c : Int8) : Gcon :=
  if c = 10 then newline g
  else if c = 13 then { g with cx := 0 }
  else if c = 9 then
    if tabStop g.cx ≥ g.cols then newline { g with cx := tabStop g.cx }
    else { g with cx := tabStop g.cx }
  else if c = 8 then
    if g.cx > 0 then cellChar glyph { g with cx := g.cx - 1 } 0x20 else g
  else
    if g.cx + 1 ≥ g.cols then
      newline { cellChar glyph g c with cx := g.cx + 1 }
    else { cellChar glyph g c with cx := g.cx + 1 }

theorem gconPutc_eq (h : g.active = true) (glyph : UInt8 → Nat → UInt8)
    (c : Int8) :
    gconPutc glyph g c = cursorDraw (putcSwitch glyph (cursorErase g) c) := by
  unfold gconPutc
  rw [if_neg (not_not.mpr h)]
  rfl

theorem backspace_moved (h : TermOk W H g) (glyph : UInt8 → Nat → UInt8)
    (hp : ¬ p) :
    Moved W H g (if g.cx > 0 then
      cellChar glyph { g with cx := g.cx - 1 } 0x20 else g) p := by
  have hlt := h.cx_lt
  split
  · next hpos =>
      have hok := h.cursor (x := g.cx - 1) (y := g.cy) (by omega) (by omega)
        h.cy_nonneg h.cy_lt
      refine moved_of_clean (hok.redraw ?_) ?_ hp
      · exact lfbChar_clean ..
      · exact lfbChar_clean ..
  · exact moved_of_clean h (Clean.refl _) hp

/-- The switch scrolls exactly when `Scrolls` says so. -/
theorem switch_moved (h : TermOk W H g) (glyph : UInt8 → Nat → UInt8)
    (c : Int8) : Moved W H g (putcSwitch glyph g c) (Scrolls g c) := by
  have hcx := h.cx_nonneg
  unfold putcSwitch Scrolls
  by_cases hnl : c = 10
  · rw [if_pos hnl]
    exact (newline_moved h _).congr ⟨fun hy => ⟨hy, Or.inl hnl⟩, And.left⟩
  rw [if_neg hnl]
  by_cases hcr : c = 13
  · rw [if_pos hcr]
    refine moved_of_clean ?_ (Clean.refl _) ?_
    · exact h.cursor (by omega) (by omega) h.cy_nonneg h.cy_lt
    · rintro ⟨-, h10 | ⟨h9, -⟩ | ⟨-, h13, -⟩⟩
      · exact hnl h10
      · rw [hcr] at h9
        exact absurd h9 (by decide)
      · exact h13 hcr
  rw [if_neg hcr]
  by_cases htab : c = 9
  · rw [if_pos htab]
    have hlt := h.cx_lt
    have hstop : tabStop g.cx = (g.cx / 4 + 1) * 4 :=
      tabStop_eq hcx (by omega)
    refine (wrap_moved h (x := tabStop g.cx) (by omega)).congr ?_
    constructor
    · rintro ⟨hy, hx⟩
      exact ⟨hy, Or.inr (Or.inl ⟨htab, hx⟩)⟩
    · rintro ⟨hy, h10 | ⟨-, hx⟩ | ⟨-, -, h9, -⟩⟩
      · exact absurd h10 hnl
      · exact ⟨hy, hx⟩
      · exact absurd htab h9
  rw [if_neg htab]
  by_cases hbs : c = 8
  · rw [if_pos hbs]
    refine backspace_moved h glyph ?_
    rintro ⟨-, h10 | ⟨h9, -⟩ | ⟨-, -, -, h8, -⟩⟩
    · exact hnl h10
    · exact htab h9
    · exact h8 hbs
  · rw [if_neg hbs]
    have hcell : Clean g.lfb (cellChar glyph g c).lfb := lfbChar_clean ..
    have hok : TermOk W H (cellChar glyph g c) := h.redraw hcell
    have hwrap : Moved W H (cellChar glyph g c) _ _ :=
      wrap_moved hok (x := g.cx + 1) (by omega)
    refine Moved.after hcell (hwrap.congr ?_)
    constructor
    · rintro ⟨hy, hx⟩
      exact ⟨hy, Or.inr (Or.inr ⟨hnl, hcr, htab, hbs, hx⟩)⟩
    · rintro ⟨hy, h10 | ⟨h9, -⟩ | ⟨-, -, -, -, hx⟩⟩
      · exact absurd h10 hnl
      · exact absurd h9 htab
      · exact ⟨hy, hx⟩

/-- One character. -/
theorem putc_moved (h : TermOk W H g) (glyph : UInt8 → Nat → UInt8)
    (c : Int8) : Moved W H g (gconPutc glyph g c) (Scrolls g c) := by
  have herase : Clean g.lfb (cursorErase g).lfb := lfbFill_clean ..
  have hok : TermOk W H (cursorErase g) := h.redraw herase
  rw [gconPutc_eq h.active]
  exact Moved.draw (Moved.after herase (switch_moved hok glyph c))

/-- A scroll of the region stays on the screen exactly when the screen is
large enough. -/
theorem scroll_onScreen_iff {a : Lfb} (hW : a.W = W) (hH : a.H = H)
    {x : Int} (hx : x = (W - 820).tdiv 2 + 26) (fill : UInt32) :
    OnScreen (lfbScrollUp a x 148 768 448 32 fill)
      ↔ OnScreen a ∧ 768 ≤ W ∧ 596 ≤ H := by
  have hfits := region_fits_iff W
  rw [← hx] at hfits
  have hgrows := lfbScrollUp_grows a x 148 768 448 32 fill
  constructor
  · intro hon
    refine ⟨by_contra fun hoff => hgrows.off hoff hon, ?_, ?_⟩
    · have htouch : ∀ i < 768, 0 ≤ x + (i : Nat) ∧ x + (i : Nat) < W := by
        intro i hi
        have hmem : (x + (i : Int), 148 + ((0 : Nat) : Int))
            ∈ (lfbScrollUp a x 148 768 448 32 fill).log :=
          (lfbScrollUp_touches hi (by decide)).2
        have hin := (hgrows.inside_iff _).mp (hon _ hmem)
        exact ⟨hin.1, hW ▸ hin.2.1⟩
      have hleft := htouch 0 (by decide)
      have hright := htouch 767 (by decide)
      exact hfits.mp (by omega)
    · have hmem : (x + ((0 : Nat) : Int), 148 + ((415 : Nat) : Int) + 32)
          ∈ (lfbScrollUp a x 148 768 448 32 fill).log :=
        (lfbScrollUp_touches (by decide) (by decide)).1
      have hin := ((hgrows.inside_iff _).mp (hon _ hmem)).2.2.2
      rw [hH] at hin
      dsimp only at hin
      omega
  · rintro ⟨hon, hw, hh⟩
    obtain ⟨hleft, hright⟩ := hfits.mpr hw
    exact (lfbScrollUp_clean hleft (by decide) (by omega) (by omega)
      (by decide)).keep hon

/-- After one character. -/
theorem putc_onScreen_iff (h : TermOk W H g) (glyph : UInt8 → Nat → UInt8)
    (c : Int8) :
    OnScreen (gconPutc glyph g c).lfb
      ↔ OnScreen g.lfb ∧ ((768 ≤ W ∧ 596 ≤ H) ∨ ¬ Scrolls g c) := by
  have hmoved := putc_moved h glyph c
  by_cases hscroll : Scrolls g c
  · obtain ⟨a, ha, hafter⟩ := hmoved.scroll hscroll
    have hregion := scroll_onScreen_iff (ha.W.trans h.width)
      (ha.H.trans h.height) h.ox g.bg
    rw [h.oy] at hafter
    constructor
    · intro hon
      have hmid : OnScreen (lfbScrollUp a g.ox 148 768 448 32 g.bg) :=
        by_contra fun hoff => hafter.toGrows.off hoff hon
      obtain ⟨hona, hsize⟩ := hregion.mp hmid
      exact ⟨by_contra fun hoff => ha.toGrows.off hoff hona, Or.inl hsize⟩
    · rintro ⟨hon, hsize | hno⟩
      · exact hafter.keep (hregion.mpr ⟨ha.keep hon, hsize⟩)
      · exact absurd hscroll hno
  · have hclean := hmoved.clean hscroll
    constructor
    · intro hon
      exact ⟨by_contra fun hoff => hclean.toGrows.off hoff hon,
        Or.inr hscroll⟩
    · rintro ⟨hon, -⟩
      exact hclean.keep hon

/-- The run lemma. -/
theorem text_onScreen_iff (h : TermOk W H g) (glyph : UInt8 → Nat → UInt8)
    (text : List Int8) :
    OnScreen (exec (gconPutc glyph) g text).lfb
      ↔ OnScreen g.lfb ∧ ((768 ≤ W ∧ 596 ≤ H)
        ∨ Along (gconPutc glyph) (fun g c => ¬ Scrolls g c) g text) := by
  induction text generalizing g with
  | nil => simp [Along]
  | cons c text ih =>
      rw [exec_cons, ih (putc_moved h glyph c).ok,
        putc_onScreen_iff h glyph c, Along]
      tauto

end Step

-- =============================================================== the claim

/-- The layout, for any width. -/
theorem consoleRegion_eq (W : Int) :
    (consoleRegion W).gcx = (W - 820).tdiv 2 + 26
      ∧ (consoleRegion W).gcy = 148 ∧ (consoleRegion W).gcols = 48
      ∧ (consoleRegion W).grows = 14 := by
  refine ⟨?_, rfl, rfl, rfl⟩
  show (W - 820).tdiv 2 + 16 + 10 = _
  omega

theorem gconInit_ok (g : Gcon) {r : ConsoleRegion}
    (hx : r.gcx = (g.lfb.W - 820).tdiv 2 + 26) (hy : r.gcy = 148)
    (hc : r.gcols = 48) (hr : r.grows = 14) (f b : UInt32) :
    TermOk g.lfb.W g.lfb.H
        (gconInit g r.gcx r.gcy r.gcols r.grows 2 f b)
      ∧ Clean g.lfb (gconInit g r.gcx r.gcy r.gcols r.grows 2 f b).lfb := by
  have hclean : Clean g.lfb
      (gconInit g r.gcx r.gcy r.gcols r.grows 2 f b).lfb := by
    unfold gconInit cursorDraw cursorBar
    exact Clean.trans (lfbFill_clean ..) (lfbFill_clean ..)
  refine ⟨⟨⟨rfl, hx, hy, hc, hr, rfl, rfl, hclean.W, hclean.H⟩, ?_, ?_, ?_,
    ?_⟩, hclean⟩
  · exact Int.le_refl 0
  · exact (by decide : (0 : Int) < 48)
  · exact Int.le_refl 0
  · exact (by decide : (0 : Int) < 14)

theorem openTerminal_ok (lfb : Lfb) :
    TermOk lfb.W lfb.H (openTerminal lfb)
      ∧ OnScreen (openTerminal lfb).lfb := by
  have hempty : OnScreen { lfb with log := [] } := by
    intro p hp
    cases hp
  obtain ⟨hx, hy, hc, hr⟩ := consoleRegion_eq lfb.W
  obtain ⟨hok, hclean⟩ := gconInit_ok (Gcon.boot { lfb with log := [] }) hx hy
    hc hr 0x9defb0 0x0a0f1a
  exact ⟨hok, hclean.keep hempty⟩

/-- A new terminal on a framebuffer of any size, and any text: every pixel
that is read or written is on the screen exactly when the screen has at
least 768 columns and 596 rows or no character of the text scrolls. -/
theorem gcon_onScreen_iff (glyph : UInt8 → Nat → UInt8) (lfb : Lfb)
    (text : List Int8) :
    OnScreen (exec (gconPutc glyph) (openTerminal lfb) text).lfb
      ↔ (768 ≤ lfb.W ∧ 596 ≤ lfb.H)
        ∨ Along (gconPutc glyph) (fun g c => ¬ Scrolls g c)
          (openTerminal lfb) text := by
  obtain ⟨hok, hon⟩ := openTerminal_ok lfb
  rw [text_onScreen_iff hok glyph text]
  exact and_iff_right hon

/-- A newline above the last row. -/
theorem putc_newline {W H : Int} {g : Gcon} (h : TermOk W H g)
    (glyph : UInt8 → Nat → UInt8) (hcy : g.cy + 1 < 14) :
    (gconPutc glyph g 10).cy = g.cy + 1 := by
  have hrows := h.rows
  rw [gconPutc_eq h.active]
  unfold putcSwitch
  rw [if_pos rfl]
  unfold newline
  dsimp only
  rw [if_neg]
  · rfl
  · show ¬ g.cy + 1 ≥ g.rows
    omega

/-- `n + 1` newlines from row `13 - n` on scroll. -/
theorem newlines_scroll {W H : Int} {n : Nat} {g : Gcon}
    (h : TermOk W H g) (glyph : UInt8 → Nat → UInt8)
    (hcy : g.cy + n = 13) :
    ¬ Along (gconPutc glyph) (fun g c => ¬ Scrolls g c) g
      (List.replicate (n + 1) 10) := by
  have hrows := h.rows
  induction n generalizing g with
  | zero =>
      rintro ⟨hno, -⟩
      exact hno ⟨by omega, Or.inl rfl⟩
  | succ n ih =>
      rintro ⟨-, hrest⟩
      have hnext := putc_newline h glyph (by omega)
      have hok := (putc_moved h glyph 10).ok
      exact ih hok (by omega) hok.rows hrest

/-- 640 by 480 pixels, and fourteen newlines. -/
theorem gcon_offScreen_640 :
    let r := lfbInitFb Mm.layoutAt2M (Mm.vmmInit Mm.layoutAt2M fun _ => 0)
      Lfb.zero 0xFD000000 2560 640 480 32
    r.2.2 = 1 ∧ r.2.1.W = 640 ∧ r.2.1.H = 480
      ∧ ¬ OnScreen (exec (gconPutc fun _ _ => 0) (openTerminal r.2.1)
          (List.replicate 14 10)).lfb := by
  intro r
  have hacc : r.2.2 = 1 :=
    lfbInitFb_ok (Mm.vmmInit_describes Mm.layoutAt2M fun _ => 0).1
      (by decide) (by decide) (by decide)
  have hr := accepted hacc
  have hw : r.2.1.W = 640 := hr.width.trans (by decide)
  have hh : r.2.1.H = 480 := hr.height.trans (by decide)
  obtain ⟨hok, -⟩ := openTerminal_ok r.2.1
  refine ⟨hacc, hw, hh, fun hon => ?_⟩
  rcases ((text_onScreen_iff hok _ _).mp hon).2 with hsize | halong
  · omega
  · exact newlines_scroll (n := 13) hok _ rfl halong

end Thuos.Gui
