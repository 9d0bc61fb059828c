/-
`desktop_draw` paints the whole screen.

Nothing that it draws looks at what is on the screen (`Overlays`), and the
wallpaper, which comes first, covers all of it. So of two desktops that
differ in their pictures only, the screens are the same afterwards.
-/
import Thuos.Gui.Desktop
import Thuos.Video.Proofs.Repaint

namespace Thuos.Gui

open Loop Video

-- ================================================================== the icons

/-- A line takes the same points on every picture, so it overlays what is
there. -/
theorem lineDrawn_overlays (x0 y0 x1 y1 : Int) (rgb : UInt32) :
    Overlays fun s => lineDrawn s x0 y0 x1 y1 rgb := by
  refine ⟨fun s => ?_, fun p s t hst => ?_⟩
  · show SameSize s (lineDrawn s x0 y0 x1 y1 rgb)
    unfold lineDrawn lfbLine
    dsimp only
    cases hr : lineLoop (lineVars x0 y0 x1 y1) rgb
        (max (x1 - x0).natAbs (y1 - y0).natAbs + 1) s
        (lineStart x0 y0 x1 y1) with
    | none => exact SameSize.refl s
    | some r => exact lineLoop_size rgb _ _ _ _ _ hr
  show Alike p (lineDrawn s x0 y0 x1 y1 rgb) (lineDrawn t x0 y0 x1 y1 rgb)
  unfold lineDrawn lfbLine
  dsimp only
  rcases lineLoop_alike rgb (lineVars x0 y0 x1 y1)
    (max (x1 - x0).natAbs (y1 - y0).natAbs + 1) s t (lineStart x0 y0 x1 y1) hst
    with ⟨hs, ht⟩ | ⟨a, b, hs, ht, h⟩
  · rw [hs, ht]
    exact hst
  · rw [hs, ht]
    exact h

/-- A line on top of what overlays the picture overlays it. -/
theorem Overlays.line {f : Lfb → Lfb} {x0 y0 x1 y1 : Int} {rgb : UInt32}
    (hf : Overlays f) : Overlays fun s => lineDrawn (f s) x0 y0 x1 y1 rgb :=
  hf.comp (lineDrawn_overlays ..)

/-- The drawing in an icon is made of lines, discs and fills, whichever
application it is for. -/
theorem iconGlyph_overlays (app : App) (left top size : Int) :
    Overlays fun s => iconGlyph s app left top size := by
  cases app with
  | terminal =>
      unfold iconGlyph iconTerminal
      apply Overlays.fill
      apply Overlays.line
      apply Overlays.line
      apply Overlays.line
      apply Overlays.line
      exact lfbRoundFill_overlays ..
  | files => exact ((lfbRoundFill_overlays ..).roundFill).roundFill
  | notes =>
      exact (lfbRoundFill_overlays ..).comp
        (Overlays.upTo fun _ _ => lfbFill_overlays ..)
  | calculator =>
      exact ((lfbRoundFill_overlays ..).fill).comp
        (Overlays.upTo fun _ _ => Overlays.upTo fun _ _ =>
          lfbRoundFill_overlays ..)
  | paint => exact ((((lfbRoundFill_overlays ..).disc).disc).disc).disc
  | settings =>
      exact Overlays.upTo fun _ _ => ((lfbRoundFill_overlays ..).disc).disc

-- ================================================================= the chrome

section Chrome

variable {α : Type*} {p : Int} {d e : Desk α}

/-- A function of the desktop that draws, and does not look at the
picture. -/
structure Redraws (f : Desk α → Desk α) : Prop where
  fields : ∀ (d : Desk α) (s : Lfb), f { d with lfb := s }
    = { f d with lfb := (f { d with lfb := s }).lfb }
  draws : ∀ d : Desk α, Overlays fun s => (f { d with lfb := s }).lfb

/-- Two parts of the desktop that each draw over what is there do so one
after the other. -/
theorem Redraws.comp {f g : Desk α → Desk α} (hf : Redraws f)
    (hg : Redraws g) : Redraws fun d => g (f d) := by
  refine ⟨fun d s => ?_, fun d => ?_⟩
  · dsimp only
    rw [hf.fields d s, hg.fields (f d)]
  · have hcomp := (hf.draws d).comp (hg.draws (f d))
    have hsame : (fun s => (g (f { d with lfb := s })).lfb)
        = fun s => (g { f d with lfb := (f { d with lfb := s }).lfb }).lfb := by
      funext s
      rw [hf.fields d s]
    rw [hsame]
    exact hcomp

/-- A tile of the dock is drawn over whatever was in its place. -/
theorem drawTile_overlays (d : Desk α) (i : Nat) :
    Overlays fun s => drawTile d s i := by
  have htile := (lfbRoundFill_overlays (d.dbx + 14 + i * (ds + dgap))
    (d.dby + 10) ds ds 13 (TILE (App.all.getD i .terminal))).comp
    (iconGlyph_overlays (App.all.getD i .terminal)
      (d.dbx + 14 + i * (ds + dgap) + 11) (d.dby + 10 + 11) (ds - 2 * 11))
  unfold drawTile
  dsimp only
  split
  · exact htile.comp (lfbDisc_overlays ..)
  · exact htile

/-- The dock is its panel with a tile for each application, all drawn over
what was there. -/
theorem drawDock_redraws : Redraws (drawDock (α := α)) := by
  refine ⟨fun d s => rfl, fun d => ?_⟩
  unfold drawDock
  dsimp only
  exact ((lfbRoundFill_overlays ..).roundFill).comp
    (Overlays.upTo fun i (_ : i < dn) => drawTile_overlays d i)

/-- The window, with its shadow, its title bar and its buttons, is drawn over
what was there. -/
theorem drawWindow_redraws : Redraws (drawWindow (α := α)) := by
  refine ⟨fun d s => rfl, fun d => ?_⟩
  unfold drawWindow
  dsimp only
  apply Overlays.fill
  apply Overlays.fill
  apply Overlays.fill
  apply Overlays.fill
  apply Overlays.fill
  apply Overlays.roundFill
  apply Overlays.roundFill
  exact lfbRoundFill_overlays ..

variable (glyph : UInt8 → Nat → UInt8) (t : UInt32)

/-- The bar at the top is redrawn, with its clock, over what was there. -/
theorem drawBar_redraws : Redraws (drawBar (α := α) glyph t) := by
  refine ⟨fun d s => rfl, fun d => ?_⟩
  unfold drawBar drawClock
  dsimp only
  apply Overlays.text
  apply Overlays.fill
  apply Overlays.text
  apply Overlays.roundFill
  apply Overlays.fill
  exact lfbFill_overlays ..

/-- To compute the place of the window draws nothing. -/
theorem placeWindow_redraws : Redraws (placeWindow (α := α)) :=
  ⟨fun _ _ => rfl, fun _ => Overlays.id⟩

/-- To compute the places of the panel, the console and the dock draws
nothing. -/
theorem placePanel_redraws : Redraws (placePanel (α := α)) :=
  ⟨fun _ _ => rfl, fun _ => Overlays.id⟩

/-- What `desktop_draw` draws on the wallpaper. -/
def drawRest (d : Desk α) : Desk α :=
  drawDock (placePanel (drawWindow (placeWindow (drawBar glyph t d))))

/-- All that `desktop_draw` does behind its gradient overlays the picture. -/
theorem drawRest_redraws : Redraws (drawRest (α := α) glyph t) :=
  ((((drawBar_redraws glyph t).comp placeWindow_redraws).comp
    drawWindow_redraws).comp placePanel_redraws).comp drawDock_redraws

/-- Two desktops that differ in what is on the screen differ in nothing
that can be seen after `desktop_draw`. -/
theorem desktop_draw_covers (d : Desk α) (word : Int → UInt32)
    (log : List (Int × Int)) :
    let e := desktopDraw glyph t d
    let e' := desktopDraw glyph t
      { d with lfb := { d.lfb with word := word, log := log } }
    e' = { e with lfb := e'.lfb } ∧ SameSize d.lfb e.lfb ∧ SameSize e.lfb e'.lfb
      ∧ ∀ col row, d.lfb.Inside (col, row) →
        e'.lfb.read col row = e.lfb.read col row := by
  intro e e'
  have hrest := drawRest_redraws (α := α) glyph t
  -- the state before the rest is drawn
  let base : Desk α := { d with W := d.lfb.W, H := d.lfb.H }
  let s := lfbGradientV d.lfb 0 0 d.lfb.W d.lfb.H d.gWallTop d.gWallBot
  let s' := lfbGradientV { d.lfb with word := word, log := log } 0 0 d.lfb.W
    d.lfb.H d.gWallTop d.gWallBot
  have he : e = drawRest glyph t { base with lfb := s } := rfl
  have he' : e' = drawRest glyph t { base with lfb := s' } := rfl
  have hsize : SameSize d.lfb e.lfb := by
    rw [he]
    exact ((lfbGradientV_overlays ..).size d.lfb).trans
      ((hrest.draws base).size s)
  have hsize' : SameSize d.lfb e'.lfb := by
    have hgradient := (lfbGradientV_overlays 0 0 d.lfb.W d.lfb.H d.gWallTop
      d.gWallBot).size { d.lfb with word := word, log := log }
    have hwall : SameSize d.lfb s' :=
      ⟨hgradient.W, hgradient.H, hgradient.pitch⟩
    rw [he']
    exact hwall.trans ((hrest.draws base).size s')
  refine ⟨?_, hsize, ⟨?_, ?_, ?_⟩, fun col row hin => ?_⟩
  · rw [he, he', hrest.fields base s, hrest.fields base s']
  · rw [hsize'.W, hsize.W]
  · rw [hsize'.H, hsize.H]
  · rw [hsize'.pitch, hsize.pitch]
  · have hwall := @gradient_alike d.lfb { d.lfb with word := word, log := log }
      d.gWallTop d.gWallBot col row rfl rfl rfl hin
    have hword := ((hrest.draws base).alike _ s s' hwall).word
    unfold Lfb.read
    rw [hsize'.pitch, hsize.pitch, he, he']
    exact hword

end Chrome

end Thuos.Gui
