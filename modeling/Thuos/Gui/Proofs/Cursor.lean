/-
The cursor lies on top of the desktop and never gets into it.

Two machines take the same turns: the desktop, and a desktop that never
shows a cursor. Each state of the first is the state of the second with an
arrow drawn on top, if the cursor is visible (`Over`). Before anything else
is drawn the cursor is taken off, which puts back the pixels it hid
(`hide_over`), so the functions of the desktop and of the applications work
on the same framebuffer in both.
-/
import Thuos.Gui.DesktopRun
import Thuos.Lib.Machine
import Thuos.Video.Proofs.Blit

namespace Thuos.Gui

open Loop Video Drivers Machine

-- ================================================================ the arrow

/-- A pixel of the arrow lies in the rectangle that is saved. -/
theorem confined_pixel {s t : Lfb} {x y : Int} {r c : Nat} (rgb : UInt32)
    (hr : r < CUR_H.toNat) (hc : c < CUR_W.toNat)
    (h : Drawn s t ∧ Confined s x y CUR_W CUR_H t) :
    Drawn s (lfbPixel t (x + c) (y + r) rgb)
      ∧ Confined s x y CUR_W CUR_H (lfbPixel t (x + c) (y + r) rgb) := by
  obtain ⟨hdrawn, hconfined⟩ := h
  obtain ⟨hpixel, hword⟩ := lfbPixel_drawn t (x + c) (y + r) rgb
  refine ⟨hdrawn.trans hpixel, fun p hp => ?_⟩
  have hr : r < 19 := hr
  have hc : c < 12 := hc
  rw [hword]
  by_cases hin : t.Shown (x + c) (y + r)
  · have hcol : (r * 12 + c) % CUR_W.toNat = c := by
      show (r * 12 + c) % 12 = c
      omega
    have hrow : (r * 12 + c) / CUR_W.toNat = r := by
      show (r * 12 + c) / 12 = r
      omega
    have hne := hp (r * 12 + c) (by show r * 12 + c < 19 * 12; omega)
    rw [hcol, hrow] at hne
    rw [if_pos hin, Function.update_of_ne]
    · exact hconfined p hp
    · rw [hdrawn.place]
      exact hne ((hdrawn.shown _ _).mp hin)
  · rw [if_neg hin]
    exact hconfined p hp

/-- The arrow changes pixels of that rectangle only. -/
theorem drawArrow_confined (x y : Int) (s : Lfb) :
    Drawn s (drawArrow x y s)
      ∧ Confined s x y CUR_W CUR_H (drawArrow x y s) := by
  refine upTo_inv (fun _ t => Drawn s t ∧ Confined s x y CUR_W CUR_H t)
    ⟨Drawn.refl s, fun _ _ => rfl⟩ fun r hr t ht => ?_
  refine upTo_inv (fun _ t => Drawn s t ∧ Confined s x y CUR_W CUR_H t) ht
    fun c hc t ht => ?_
  have hc : c < CUR_W.toNat := lt_of_lt_of_le hc (min_le_left _ _)
  dsimp only
  split
  · exact confined_pixel _ hr hc ht
  split
  · exact confined_pixel _ hr hc ht
  · exact ht

theorem drawArrow_picture {s t : Lfb} (h : s.picture = t.picture)
    (x y : Int) : (drawArrow x y s).picture = (drawArrow x y t).picture := by
  refine upTo_sim (fun s t : Lfb => s.picture = t.picture) h
    fun r _ s t h => ?_
  refine upTo_sim (fun s t : Lfb => s.picture = t.picture) h
    fun c _ s t h => ?_
  dsimp only
  split
  · exact lfbPixel_picture h _ _ _
  split
  · exact lfbPixel_picture h _ _ _
  · exact h

/-- The arrow over a framebuffer, whose log does not change. -/
def withArrow (x y : Int) (s : Lfb) : Lfb := (drawArrow x y s).withLog s.log

/-- What `lfb_blit_get` saved is what the arrow hides. -/
def SavedUnder (s : Lfb) (x y : Int) (save : Nat → UInt32) : Prop :=
  ∀ n < CUR_H.toNat * CUR_W.toNat, save n = taken s x y CUR_W n

/-- Taking the arrow off leaves what was there before. -/
theorem put_withArrow {s : Lfb} {x y : Int} {save : Nat → UInt32}
    (h : SavedUnder s x y save) :
    (lfbBlitPut (withArrow x y s) x y CUR_W CUR_H save).withLog s.log = s := by
  obtain ⟨hdrawn, hconfined⟩ := drawArrow_confined x y s
  have harrow := hconfined.withLog s x y CUR_W CUR_H s.log
  unfold withArrow
  obtain ⟨hput, hword⟩ :=
    lfbBlitPut_restores s x y CUR_W CUR_H save hdrawn.withLog harrow h
  exact hput.undone hword

/-- Showing the cursor saves what the arrow hides. -/
theorem cursorShow_spec (x y : Int) {c : Cursor} (s : Lfb)
    (hc : c.curVis = false) :
    ∃ save t, SavedUnder s x y save
      ∧ cursorShow x y c s = (⟨x, y, true, save⟩, t)
      ∧ t.withLog s.log = withArrow x y s := by
  obtain ⟨hread, hsaved⟩ := lfbBlitGet_spec s x y CUR_W CUR_H c.curSave
  have hoff : ¬ c.curVis = true := by
    rw [hc]
    exact Bool.false_ne_true
  unfold cursorShow
  rw [if_neg hoff]
  -- the loops are left alone where two states are compared
  generalize lfbBlitGet = get at hread hsaved ⊢
  dsimp only
  have hword := drawArrow_picture hread.picture x y
  exact ⟨_, _, hsaved, rfl, Lfb.withLog_congr hword s.log⟩

-- ============================================================= the relation

/-- The framebuffer under a cursor. -/
def Cursor.over (c : Cursor) (s : Lfb) : Lfb :=
  if c.curVis then withArrow c.curX c.curY s else s

section Relation

variable {α : Type*}

/-- A desktop that shows no cursor, with a cursor on top of it. -/
def Run.under (c : Cursor) (b : Run α) : Run α :=
  { b with
    cursor := c, desk := { b.desk with lfb := c.over b.desk.lfb } }

/-- The pieces that draw, and those that lead to them. -/
def Pc.Draws : Pc → Prop
  | .clock => True
  | .key => True
  | .button => True
  | .first _ => True
  | .second _ _ => True
  | _ => False

/-- A cursor that can lie on top of a desktop that shows none. -/
structure Over (c : Cursor) (b : Run α) : Prop where
  bare : b.cursor.curVis = false
  saved : c.curVis = true → SavedUnder b.desk.lfb c.curX c.curY c.curSave
  evt : b.evt = true → c.curVis = false
  draws : b.pc.Draws → c.curVis = false

variable {c : Cursor} {b b' : Run α}

/-- A hidden cursor lies on nothing. -/
theorem under_hidden (hc : c.curVis = false) (b : Run α) :
    b.under c = { b with cursor := c } := by
  unfold Run.under Cursor.over
  rw [hc]
  rfl

theorem Over.hidden (hbare : b.cursor.curVis = false)
    (hc : c.curVis = false) : Over c b where
  bare := hbare
  saved hvis := by
    rw [hc] at hvis
    cases hvis
  evt _ := hc
  draws _ := hc

theorem withCursor_eq {f : Cursor → Lfb → Cursor × Lfb} {r : Run α} {s : Lfb}
    (hf : f r.cursor r.desk.lfb = (c, s)) :
    r.withCursor f
      = { r with
          cursor := c
          desk := { r.desk with lfb := s.withLog r.desk.lfb.log } } := by
  unfold Run.withCursor
  rw [hf]

theorem over_log (c : Cursor) (s : Lfb) : (c.over s).log = s.log := by
  unfold Cursor.over withArrow
  split
  · exact Lfb.withLog_log _ _
  · rfl

/-- The loop goes on to a piece that draws nothing. -/
theorem Over.goTo (h : Over c b) (pc : Pc) (hpc : ¬ pc.Draws) :
    Over c (b.goTo pc) :=
  ⟨h.bare, h.saved, h.evt, fun hd => absurd hd hpc⟩

/-- Hiding the cursor leaves the desktop that shows none. -/
theorem hide_over (h : Over c b) :
    ∃ c' : Cursor, c'.curVis = false
      ∧ (b.under c).withCursor cursorHide = b.under c' := by
  cases hc : c.curVis with
  | false =>
      refine ⟨c, hc, ?_⟩
      have hhide : cursorHide (b.under c).cursor (b.under c).desk.lfb
          = (c, (b.under c).desk.lfb) := by
        unfold cursorHide
        exact if_neg (by simp [Run.under, hc])
      rw [withCursor_eq hhide]
      rfl
  | true =>
      have hoff : ({ c with curVis := false } : Cursor).curVis = false := rfl
      refine ⟨_, hoff, ?_⟩
      have hover : (b.under c).desk.lfb
          = withArrow c.curX c.curY b.desk.lfb := if_pos hc
      have hhide : cursorHide (b.under c).cursor (b.under c).desk.lfb
          = ({ c with curVis := false },
            lfbBlitPut (withArrow c.curX c.curY b.desk.lfb) c.curX c.curY
              CUR_W CUR_H c.curSave) := by
        unfold cursorHide
        rw [hover]
        exact if_pos hc
      have hlog : (b.under c).desk.lfb.log = b.desk.lfb.log := over_log c _
      rw [withCursor_eq hhide, under_hidden hoff, hlog,
        put_withArrow (h.saved hc)]
      rfl

/-- `raise` hides the cursor, unless that was done before. -/
theorem raise_over (h : Over c b) :
    ∃ c' : Cursor, c'.curVis = false ∧ (b.under c).raise = b.raise.under c'
      ∧ b.raise.cursor.curVis = false := by
  obtain ⟨c', hc', hhide⟩ := hide_over h
  have hbare : b.withCursor cursorHide = b := by
    have hnone : cursorHide b.cursor b.desk.lfb = (b.cursor, b.desk.lfb) :=
      if_neg (by simp [h.bare])
    rw [withCursor_eq hnone]
    rfl
  unfold Run.raise
  rw [hbare, hhide]
  cases hevt : b.evt with
  | false =>
      refine ⟨c', hc', ?_, ?_⟩
      · have hevt' : (b.under c).evt = false := hevt
        simp only [hevt', Bool.false_eq_true, not_false_eq_true, if_true]
        rfl
      · exact h.bare
  | true =>
      refine ⟨c, h.evt hevt, ?_, ?_⟩
      · have hevt' : (b.under c).evt = true := hevt
        simp only [hevt', not_true_eq_false, if_false]
      · exact h.bare

end Relation

-- ================================================================ the steps

section Steps

variable {α : Type*} {glyph : UInt8 → Nat → UInt8} {k : UInt32 → Apps α}
variable {hz : UInt32} {yFirst : Bool} {c : Cursor} {b : Run α}

/-- What is done at a point. -/
theorem reach_over (hbare : b.cursor.curVis = false)
    (hc : c.curVis = false) (site : Site) (x y : Int) :
    ∃ c', Over c' (b.reach glyph k false site x y)
      ∧ (b.under c).reach glyph k true site x y
        = (b.reach glyph k false site x y).under c' := by
  rw [under_hidden hc]
  cases site with
  | click =>
      refine ⟨c, Over.hidden hbare hc, ?_⟩
      rw [under_hidden hc]
      rfl
  | panel =>
      refine ⟨c, ?_, ?_⟩
      · unfold Run.reach
        dsimp only
        split
        · exact Over.hidden hbare hc
        · exact Over.hidden hbare hc
      · rw [under_hidden hc]
        unfold Run.reach
        dsimp only
        split
        · rfl
        · rfl
  | motion =>
      refine ⟨c, Over.hidden hbare hc, ?_⟩
      rw [under_hidden hc]
      rfl
  | cursor =>
      obtain ⟨save, t, hsaved, hshow, harrow⟩ :=
        cursorShow_spec x y b.desk.lfb hc
      have hbare' : b.reach glyph k false .cursor x y = b.quiet.goTo .hlt := rfl
      have hover : (⟨x, y, true, save⟩ : Cursor).over b.desk.lfb
          = t.withLog b.desk.lfb.log := by
        unfold Cursor.over
        rw [if_pos rfl, harrow]
      rw [hbare']
      refine ⟨⟨x, y, true, save⟩, ⟨hbare, fun _ => hsaved, ?_, ?_⟩, ?_⟩
      · intro hevt
        cases hevt
      · intro hdraws
        cases hdraws
      · unfold Run.reach
        simp only [if_true]
        rw [withCursor_eq (f := cursorShow x y)
          (r := { b with cursor := c }) hshow, ← hover]
        rfl

/-- A piece of the loop. -/
theorem go_over (h : Over c b) :
    ∃ c', Over c' (b.go glyph k hz yFirst false)
      ∧ (b.under c).go glyph k hz yFirst true
        = (b.go glyph k hz yFirst false).under c' := by
  cases hpc : b.pc with
  | hlt =>
      have hpc' : (b.under c).pc = .hlt := hpc
      unfold Run.go
      rw [hpc, hpc']
      exact ⟨c, h.goTo _ nofun, rfl⟩
  | usb =>
      have hpc' : (b.under c).pc = .usb := hpc
      have hquiet : Over c b.quiet := ⟨h.bare, h.saved, nofun, h.draws⟩
      have hunder : (b.under c).quiet = b.quiet.under c := rfl
      obtain ⟨c', hc', hraise, hbare⟩ := raise_over hquiet
      unfold Run.go
      rw [hpc, hpc']
      dsimp only
      rw [hunder, hraise]
      by_cases hsec : pitSeconds hz b.ticks ≠ b.lastSec
      · have hsec' : pitSeconds hz (b.under c).ticks ≠ (b.under c).lastSec :=
          hsec
        rw [if_pos hsec, if_pos hsec']
        exact ⟨c', Over.hidden hbare hc', rfl⟩
      · have hsec' : ¬ pitSeconds hz (b.under c).ticks
            ≠ (b.under c).lastSec := hsec
        rw [if_neg hsec, if_neg hsec']
        exact ⟨c, hquiet.goTo _ nofun, rfl⟩
  | clock =>
      have hpc' : (b.under c).pc = .clock := hpc
      have hc := h.draws (by rw [hpc]; trivial)
      unfold Run.go
      rw [hpc, hpc']
      refine ⟨c, Over.hidden h.bare hc, ?_⟩
      rw [under_hidden hc, under_hidden hc]
  | keys =>
      have hpc' : (b.under c).pc = .keys := hpc
      have hkbd : (b.under c).kbd = b.kbd := rfl
      obtain ⟨c', hc', hraise, hbare⟩ := raise_over h
      unfold Run.go
      rw [hpc, hpc']
      dsimp only
      rw [hraise, hkbd]
      split
      · exact ⟨c', Over.hidden hbare hc', rfl⟩
      · exact ⟨c, h.goTo _ nofun, rfl⟩
  | key =>
      have hpc' : (b.under c).pc = .key := hpc
      have hc := h.draws (by rw [hpc]; trivial)
      unfold Run.go
      rw [hpc, hpc']
      refine ⟨c, Over.hidden h.bare hc, ?_⟩
      rw [under_hidden hc, under_hidden hc]
  | mouse =>
      have hpc' : (b.under c).pc = .mouse := hpc
      have hmouse : (b.under c).mouse = b.mouse := rfl
      have htaken : Over c (b.withMouse (mouseTakeEvent b.mouse).1) :=
        ⟨h.bare, h.saved, h.evt, h.draws⟩
      have hunder : ∀ m, (b.under c).withMouse m = (b.withMouse m).under c :=
        fun _ => rfl
      obtain ⟨c', hc', hraise, hbare⟩ := raise_over htaken
      unfold Run.go
      rw [hpc, hpc']
      dsimp only
      rw [hmouse, hunder, hraise]
      split
      · exact ⟨c', Over.hidden hbare hc', rfl⟩
      · exact ⟨c, htaken.goTo _ nofun, rfl⟩
  | button =>
      have hpc' : (b.under c).pc = .button := hpc
      have hc := h.draws (by rw [hpc]; trivial)
      unfold Run.go
      rw [hpc, hpc', under_hidden hc]
      refine ⟨c, ?_, ?_⟩
      · dsimp only
        split
        · exact Over.hidden h.bare hc
        split
        · exact Over.hidden h.bare hc
        · exact Over.hidden h.bare hc
      · rw [under_hidden hc]
        dsimp only
        split
        · rfl
        split
        · rfl
        · rfl
  | first site =>
      have hpc' : (b.under c).pc = .first site := hpc
      have hc := h.draws (by rw [hpc]; trivial)
      unfold Run.go
      rw [hpc, hpc']
      exact ⟨c, Over.hidden h.bare hc, rfl⟩
  | second site v =>
      have hpc' : (b.under c).pc = .second site v := hpc
      have hc := h.draws (by rw [hpc]; trivial)
      unfold Run.go
      rw [hpc, hpc']
      dsimp only
      split
      · exact reach_over h.bare hc site b.mouse.gx v
      · exact reach_over h.bare hc site v b.mouse.gy
  | done =>
      have hpc' : (b.under c).pc = .done := hpc
      have hevt' : (b.under c).evt = b.evt := rfl
      unfold Run.go
      rw [hpc, hpc']
      dsimp only
      rw [hevt']
      split
      case isTrue hevt => exact ⟨c, Over.hidden h.bare (h.evt hevt), rfl⟩
      case isFalse => exact ⟨c, h.goTo _ nofun, rfl⟩

/-- A turn. -/
theorem step_over (h : Over c b) (t : Turn) :
    ∃ c', Over c' (b.step glyph k hz yFirst false t)
      ∧ (b.under c).step glyph k hz yFirst true t
        = (b.step glyph k hz yFirst false t).under c' := by
  have hpc : (b.under c).pc = b.pc := rfl
  cases t with
  | key scancode => exact ⟨c, ⟨h.bare, h.saved, h.evt, h.draws⟩, rfl⟩
  | mouse v => exact ⟨c, ⟨h.bare, h.saved, h.evt, h.draws⟩, rfl⟩
  | tick => exact ⟨c, ⟨h.bare, h.saved, h.evt, h.draws⟩, rfl⟩
  | usbKey v =>
      unfold Run.step
      dsimp only
      rw [hpc]
      split
      · exact ⟨c, ⟨h.bare, h.saved, h.evt, h.draws⟩, rfl⟩
      · exact ⟨c, h, rfl⟩
  | usbMouse dx dy buttons =>
      unfold Run.step
      dsimp only
      rw [hpc]
      split
      · exact ⟨c, ⟨h.bare, h.saved, h.evt, h.draws⟩, rfl⟩
      · exact ⟨c, h, rfl⟩
  | go => exact go_over h

end Steps

-- ================================================================= the run

section Result

variable {α : Type*} (glyph : UInt8 → Nat → UInt8) (k : UInt32 → Apps α)
variable (hz : UInt32) (yFirst : Bool)

/-- In every run from the start of `desktop_run` the desktop is the one of
the run that shows no cursor, with the cursor on top of it; and the cursor
is off the screen whenever anything else is drawn. -/
theorem cursor_on_top (d : Desk α) (mouse : Mouse) (kbd : Keyboard)
    (ticks : UInt32) (turns : List Turn) :
    let r := exec (Run.step glyph k hz yFirst true)
      (Run.start glyph k d mouse kbd ticks) turns
    let b := exec (Run.step glyph k hz yFirst false)
      (Run.start glyph k d mouse kbd ticks) turns
    r = b.under r.cursor ∧ (r.pc.Draws → r.cursor.curVis = false)
      ∧ (r.cursor.curVis = true →
        SavedUnder b.desk.lfb r.cursor.curX r.cursor.curY
          r.cursor.curSave) := by
  have hrun : ∀ (turns : List Turn) (c : Cursor) (b : Run α), Over c b →
      ∃ c', Over c' (exec (Run.step glyph k hz yFirst false) b turns)
        ∧ exec (Run.step glyph k hz yFirst true) (b.under c) turns
          = (exec (Run.step glyph k hz yFirst false) b turns).under c' := by
    intro turns
    induction turns with
    | nil => exact fun c b h => ⟨c, h, rfl⟩
    | cons t turns ih =>
        intro c b h
        obtain ⟨c', h', hstep⟩ := step_over h t
        rw [exec_cons, exec_cons, hstep]
        exact ih c' _ h'
  have hstart : (Run.start glyph k d mouse kbd ticks).under ⟨0, 0, false,
      fun _ => 0⟩ = Run.start glyph k d mouse kbd ticks := rfl
  obtain ⟨c, h, heq⟩ := hrun turns ⟨0, 0, false, fun _ => 0⟩
    (Run.start glyph k d mouse kbd ticks) (Over.hidden rfl rfl)
  rw [hstart] at heq
  intro r b
  have hr : r = b.under c := heq
  have hcursor : r.cursor = c := by rw [hr]; rfl
  rw [hcursor]
  refine ⟨hr, fun hd => h.draws ?_, h.saved⟩
  rw [hr] at hd
  exact hd

end Result

end Thuos.Gui
