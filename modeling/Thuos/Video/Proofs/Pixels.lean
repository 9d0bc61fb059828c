/-
What the drawing functions leave at each pixel.

`Paints s t R ink` says that `t` is `s` with the region `R` painted over,
in the colour `ink` at each pixel, and everything else as it was. A fill
paints a rectangle (`lfbFill_paints`), a character a rectangle in two
colours (`lfbChar_paints`), and a scroll paints a rectangle with what was
`dy` rows below (`lfbScrollUp_paints`). All of it is for regions on the
screen, where nothing is clipped.

Each loop is read as a region that grows, in the colours of the whole
picture (`Paints.grow`). In the copy of a scroll that is so because each
pixel is read before it is painted over, the rows being copied from the top
down.
-/
import Thuos.Lib.Terminal
import Thuos.Video.Proofs.Clip

namespace Thuos.Video

open Loop

/-- The framebuffer `s`, with the region painted over. -/
structure Paints (s t : Lfb) (R : Int → Int → Prop)
    (ink : Int → Int → UInt32) : Prop where
  W : t.W = s.W
  H : t.H = s.H
  pitch : t.pitchPx = s.pitchPx
  inside : ∀ col row, 0 ≤ col → col < s.pitchPx → R col row →
    t.read col row = ink col row
  outside : ∀ col row, 0 ≤ col → col < s.pitchPx → ¬ R col row →
    t.read col row = s.read col row

-- ============================================================== composition

section Compose

variable {s t u : Lfb} {R R' R'' : Int → Int → Prop}
  {ink ink' : Int → Int → UInt32}

theorem Paints.nothing (s : Lfb) (hR : ∀ col row, ¬ R col row) :
    Paints s s R ink :=
  ⟨rfl, rfl, rfl, fun col row _ _ h => absurd h (hR col row),
    fun _ _ _ _ _ => rfl⟩

/-- More of the same picture. -/
theorem Paints.grow (h : Paints s t R ink) (h' : Paints t u R' ink')
    (hink : ∀ col row, R' col row → ink' col row = ink col row)
    (hR : ∀ col row, R'' col row ↔ R col row ∨ R' col row) :
    Paints s u R'' ink := by
  refine ⟨h'.W.trans h.W, h'.H.trans h.H, h'.pitch.trans h.pitch, ?_, ?_⟩
  · intro col row hlow hhigh hin
    have hhigh' : col < t.pitchPx := h.pitch ▸ hhigh
    by_cases hnew : R' col row
    · rw [h'.inside col row hlow hhigh' hnew, hink col row hnew]
    · have hold := ((hR col row).mp hin).resolve_right hnew
      rw [h'.outside col row hlow hhigh' hnew]
      exact h.inside col row hlow hhigh hold
  · intro col row hlow hhigh hout
    have hhigh' : col < t.pitchPx := h.pitch ▸ hhigh
    have hnew : ¬ R' col row := fun hin => hout ((hR col row).mpr (.inr hin))
    have hold : ¬ R col row := fun hin => hout ((hR col row).mpr (.inl hin))
    rw [h'.outside col row hlow hhigh' hnew]
    exact h.outside col row hlow hhigh hold

/-- The same picture, described otherwise. -/
theorem Paints.congr (h : Paints s t R ink)
    (hR : ∀ col row, R' col row ↔ R col row)
    (hink : ∀ col row, R' col row → ink' col row = ink col row) :
    Paints s t R' ink' := by
  refine ⟨h.W, h.H, h.pitch, ?_, ?_⟩
  · intro col row hlow hhigh hin
    rw [hink col row hin]
    exact h.inside col row hlow hhigh ((hR col row).mp hin)
  · intro col row hlow hhigh hout
    exact h.outside col row hlow hhigh (mt (hR col row).mpr hout)

/-- Two pixels of the rows have different places. -/
theorem place_inj {P c r c' r' : Int} (hc : 0 ≤ c) (hcP : c < P)
    (hc' : 0 ≤ c') (hcP' : c' < P) (h : r' * P + c' = r * P + c) :
    c' = c ∧ r' = r := by
  have hdiv : ∀ c r : Int, 0 ≤ c → c < P → (r * P + c) / P = r := by
    intro c r hlow hhigh
    rw [Int.add_comm, Int.add_mul_ediv_right _ _ (by omega),
      Int.ediv_eq_zero_of_lt hlow hhigh, Int.zero_add]
  have hrow : r' = r := by
    rw [← hdiv c' r' hc' hcP', h, hdiv c r hc hcP]
  subst hrow
  exact ⟨by omega, rfl⟩

theorem write_paints {col row : Int} (hlow : 0 ≤ col)
    (hhigh : col < s.pitchPx) (rgb : UInt32) :
    Paints s (s.write col row rgb) (InRect col row 1 1) fun _ _ => rgb := by
  refine ⟨rfl, rfl, rfl, ?_, ?_⟩
  · rintro col' row' - - ⟨hl, hr, ht, hb⟩
    obtain rfl : col' = col := by omega
    obtain rfl : row' = row := by omega
    exact Function.update_self ..
  · intro col' row' hlow' hhigh' hout
    refine Function.update_of_ne (fun hplace => hout ?_) ..
    obtain ⟨rfl, rfl⟩ := place_inj hlow hhigh hlow' hhigh' hplace
    refine ⟨?_, ?_, ?_, ?_⟩ <;> omega

/-- A loop that paints one piece after another, each in the colours of the
whole picture. -/
theorem upTo_paints {body : Lfb → Nat → Lfb} {n : Nat}
    {R : Nat → Int → Int → Prop} (h0 : ∀ col row, ¬ R 0 col row)
    (hstep : ∀ i < n, ∀ t, Paints s t (R i) ink → ∃ R' ink',
      Paints t (body t i) R' ink'
        ∧ (∀ col row, R' col row → ink' col row = ink col row)
        ∧ ∀ col row, R (i + 1) col row ↔ R i col row ∨ R' col row) :
    Paints s (upTo n body s) (R n) ink := by
  refine upTo_inv (fun i t => Paints s t (R i) ink)
    (Paints.nothing s h0) fun i hi t ht => ?_
  obtain ⟨R', ink', hpaints, hink, hR⟩ := hstep i hi t ht
  exact ht.grow hpaints hink hR

end Compose

-- ================================================================ the pitch

section Pitch

variable (s : Lfb) (x y w h : Int)

/-- A loop keeps the pitch if its turns do. -/
theorem upTo_pitch {body : Lfb → Nat → Lfb} {n : Nat}
    (hbody : ∀ t i, (body t i).pitchPx = t.pitchPx) :
    (upTo n body s).pitchPx = s.pitchPx :=
  upTo_inv (fun _ t => t.pitchPx = s.pitchPx) rfl
    fun i _ t ht => (hbody t i).trans ht

theorem lfbFill_pitch (rgb : UInt32) :
    (lfbFill s x y w h rgb).pitchPx = s.pitchPx := by
  unfold lfbFill
  apply upTo_pitch
  intro t j
  apply upTo_pitch
  intro u i
  rfl

theorem lfbChar_pitch (glyph : UInt8 → Nat → UInt8) (ch : Int8)
    (fg : UInt32) (bg scale : Int) :
    (lfbChar glyph s x y ch fg bg scale).pitchPx = s.pitchPx := by
  unfold lfbChar
  apply upTo_pitch
  intro t r
  apply upTo_pitch
  intro u c
  split
  · apply lfbFill_pitch
  split
  · apply lfbFill_pitch
  · rfl

theorem lfbScrollUp_pitch (dy : Int) (fill : UInt32) :
    (lfbScrollUp s x y w h dy fill).pitchPx = s.pitchPx := by
  rw [lfbScrollUp_eq, lfbFill_pitch]
  apply upTo_pitch
  intro t j
  apply upTo_pitch
  intro u i
  rfl

end Pitch

-- =============================================================== rectangles

section Rectangles

variable {x y w h col row : Int}

/-- Nothing in a rectangle of no size. -/
theorem not_inRect (hsize : w ≤ 0 ∨ h ≤ 0) : ¬ InRect x y w h col row := by
  rintro ⟨hl, hr, ht, hb⟩
  omega

/-- A rectangle and the next one in its row. -/
theorem inRect_right {v : Int} (hw : 0 ≤ w) (hv : 0 ≤ v) :
    InRect x y (w + v) h col row
      ↔ InRect x y w h col row ∨ InRect (x + w) y v h col row := by
  unfold InRect
  omega

/-- A rectangle and the next one below it. -/
theorem inRect_below {v : Int} (hh : 0 ≤ h) (hv : 0 ≤ v) :
    InRect x y w (h + v) col row
      ↔ InRect x y w h col row ∨ InRect x (y + h) w v col row := by
  unfold InRect
  omega

/-- The number of a square in its row and of its row. -/
theorem inRect_square {σ : Int} {c r : Nat}
    (hin : InRect (x + c * σ) (y + r * σ) σ σ col row) :
    (col - x) / σ = c ∧ (row - y) / σ = r := by
  obtain ⟨hl, hr, ht, hb⟩ := hin
  exact ⟨Terminal.strip_eq (by omega) (by omega),
    Terminal.strip_eq (by omega) (by omega)⟩

end Rectangles

-- ================================================================ the fills

section Fill

variable {s t : Lfb} {x y w h : Int} {R : Int → Int → Prop}
  {ink : Int → Int → UInt32}

/-- A rectangle of the screen, whose rows are as long as the screen is wide
or longer. -/
structure Fits (s : Lfb) (x y w h : Int) : Prop where
  wide : s.W ≤ s.pitchPx
  left : 0 ≤ x
  width : 0 ≤ w
  right : x + w ≤ s.W
  top : 0 ≤ y
  height : 0 ≤ h
  bottom : y + h ≤ s.H

theorem Paints.fits (hp : Paints s t R ink) (hf : Fits s x y w h) :
    Fits t x y w h := by
  have hwide : t.W ≤ t.pitchPx := by
    rw [hp.W, hp.pitch]
    exact hf.wide
  exact { hf with
    wide := hwide
    right := hp.W ▸ hf.right
    bottom := hp.H ▸ hf.bottom }

/-- One row of a fill. -/
theorem fillRow_paints (hf : Fits s x y w h) (row : Int) (rgb : UInt32) :
    Paints s (upTo w.toNat (fun s (i : Nat) => s.write (x + i) row rgb) s)
      (InRect x row w.toNat 1) fun _ _ => rgb := by
  have hwide := hf.wide
  have hleft := hf.left
  have hright := hf.right
  refine upTo_paints (R := fun n => InRect x row n 1)
    (fun col row' => not_inRect (.inl (by omega))) fun i hi t ht => ?_
  have hpitch := ht.pitch
  refine ⟨_, _, write_paints (by omega) (by omega) rgb,
    fun _ _ _ => rfl, fun col row' => ?_⟩
  push_cast
  exact inRect_right (by omega) (by omega)

theorem lfbFill_paints (hf : Fits s x y w h) (rgb : UInt32) :
    Paints s (lfbFill s x y w h rgb) (InRect x y w h) fun _ _ => rgb := by
  -- nothing is clipped
  have hloops : lfbFill s x y w h rgb
      = upTo h.toNat (fun s (j : Nat) =>
          upTo w.toNat (fun s (i : Nat) => s.write (x + i) (y + j) rgb) s)
          s := by
    unfold lfbFill
    simp only [if_neg (Int.not_lt.mpr hf.left),
      if_neg (Int.not_lt.mpr hf.top), if_neg (Int.not_lt.mpr hf.right),
      if_neg (Int.not_lt.mpr hf.bottom)]
  rw [hloops]
  have hrows : Paints s (upTo h.toNat (fun s (j : Nat) =>
      upTo w.toNat (fun s (i : Nat) => s.write (x + i) (y + j) rgb) s) s)
      (InRect x y w.toNat h.toNat) fun _ _ => rgb := by
    refine upTo_paints (R := fun n => InRect x y w.toNat n)
      (fun col row => not_inRect (.inr (by omega))) fun j hj t ht => ?_
    refine ⟨_, _, fillRow_paints (ht.fits hf) (y + j) rgb,
      fun _ _ _ => rfl, fun col row => ?_⟩
    push_cast
    exact inRect_below (by omega) (by omega)
  rw [Int.toNat_of_nonneg hf.width, Int.toNat_of_nonneg hf.height] at hrows
  exact hrows

end Fill

-- ============================================================= a character

section Char

variable {s : Lfb} {x y scale : Int}

/-- The square in column `c` and row `r` of the glyph is set. -/
def GlyphBit (glyph : UInt8 → Nat → UInt8) (b : UInt8) (r c : Nat) : Prop :=
  glyph b r &&& (0x80 >>> UInt8.ofNat c) ≠ 0

instance (glyph : UInt8 → Nat → UInt8) (b : UInt8) (r c : Nat) :
    Decidable (GlyphBit glyph b r c) :=
  inferInstanceAs (Decidable (_ ≠ _))

/-- The colour of a pixel of a character whose corner is at `(x, y)`. -/
def charInk (glyph : UInt8 → Nat → UInt8) (b : UInt8) (x y scale : Int)
    (fg bg : UInt32) (col row : Int) : UInt32 :=
  if GlyphBit glyph b ((row - y) / scale).toNat ((col - x) / scale).toNat
  then fg else bg

/-- A square of the character. -/
theorem Fits.square (hf : Fits s x y (8 * scale) (16 * scale))
    (hscale : 0 < scale) {r c : Nat} (hr : r < 16) (hc : c < 8) :
    Fits s (x + c * scale) (y + r * scale) scale scale := by
  obtain ⟨hwide, hleft, -, hright, htop, -, hbottom⟩ := hf
  have hcol : (c : Int) * scale + scale ≤ 8 * scale := by nlinarith
  have hrow : (r : Int) * scale + scale ≤ 16 * scale := by nlinarith
  have hc0 : 0 ≤ (c : Int) * scale := Int.mul_nonneg (by omega) (by omega)
  have hr0 : 0 ≤ (r : Int) * scale := Int.mul_nonneg (by omega) (by omega)
  refine ⟨hwide, ?_, ?_, ?_, ?_, ?_, ?_⟩ <;> omega

/-- A square has one colour. -/
theorem charInk_square {glyph : UInt8 → Nat → UInt8} {b : UInt8}
    {fg bg : UInt32} {r c : Nat} {col row : Int}
    (hin : InRect (x + c * scale) (y + r * scale) scale scale col row) :
    charInk glyph b x y scale fg bg col row
      = if GlyphBit glyph b r c then fg else bg := by
  obtain ⟨hc, hr⟩ := inRect_square hin
  unfold charInk
  rw [hc, hr]
  rfl

/-- One row of squares. -/
theorem charRow_paints (hf : Fits s x y (8 * scale) (16 * scale))
    (hscale : 0 < scale) (glyph : UInt8 → Nat → UInt8) (b : UInt8)
    (fg : UInt32) {bg : Int} (hbg : 0 ≤ bg) {r : Nat} (hr : r < 16) :
    Paints s
      (upTo 8 (fun s (c : Nat) =>
        if GlyphBit glyph b r c then
          lfbFill s (x + c * scale) (y + r * scale) scale scale fg
        else if bg ≥ 0 then
          lfbFill s (x + c * scale) (y + r * scale) scale scale
            (UInt32.ofInt bg)
        else s) s)
      (InRect x (y + r * scale) (8 * scale) scale)
      (charInk glyph b x y scale fg (UInt32.ofInt bg)) := by
  refine upTo_paints (n := 8)
    (R := fun n => InRect x (y + r * scale) (n * scale) scale)
    (fun col row => not_inRect (.inl (by omega))) fun c hc t ht => ?_
  have hsquare := (ht.fits hf).square hscale hr hc
  have hnext := Terminal.strip_succ c scale
  have hc0 : 0 ≤ (c : Int) * scale := Int.mul_nonneg (by omega) (by omega)
  by_cases hbit : GlyphBit glyph b r c
  · rw [if_pos hbit]
    refine ⟨_, _, lfbFill_paints hsquare fg, ?_, ?_⟩
    · intro col row hin
      rw [charInk_square hin, if_pos hbit]
    · intro col row
      rw [hnext]
      exact inRect_right hc0 (by omega)
  · rw [if_neg hbit, if_pos hbg]
    refine ⟨_, _, lfbFill_paints hsquare _, ?_, ?_⟩
    · intro col row hin
      rw [charInk_square hin, if_neg hbit]
    · intro col row
      rw [hnext]
      exact inRect_right hc0 (by omega)

/-- The character on a background that is drawn. -/
theorem lfbChar_paints (hf : Fits s x y (8 * scale) (16 * scale))
    (hscale : 0 < scale) (glyph : UInt8 → Nat → UInt8) (ch : Int8)
    (fg : UInt32) {bg : Int} (hbg : 0 ≤ bg) :
    Paints s (lfbChar glyph s x y ch fg bg scale)
      (InRect x y (8 * scale) (16 * scale))
      (charInk glyph ch.toUInt8 x y scale fg (UInt32.ofInt bg)) := by
  unfold lfbChar
  refine upTo_paints (n := 16)
    (R := fun n => InRect x y (8 * scale) (n * scale))
    (fun col row => not_inRect (.inr (by omega))) fun r hr t ht => ?_
  have hnext := Terminal.strip_succ r scale
  have hr0 : 0 ≤ (r : Int) * scale := Int.mul_nonneg (by omega) (by omega)
  refine ⟨_, _, charRow_paints (ht.fits hf) hscale glyph ch.toUInt8 fg hbg
    hr, fun _ _ _ => rfl, fun col row => ?_⟩
  rw [hnext]
  exact inRect_below hr0 (by omega)

end Char

-- =============================================================== the scroll

section Scroll

variable {s : Lfb} {x y w h dy : Int}

/-- One turn of the copy. -/
theorem copyPixel_paints (hf : Fits s x y w h) {j i : Nat}
    (hi : i < w.toNat) :
    Paints s (copyPixel x y dy j s i) (InRect (x + i) (y + j) 1 1)
      fun _ _ => s.read (x + i) (y + j + dy) := by
  have hwide := hf.wide
  have hleft := hf.left
  have hright := hf.right
  let t := s.touch (x + i) (y + j + dy)
  have hcol : x + (i : Int) < t.pitchPx := by
    show x + (i : Int) < s.pitchPx
    omega
  have hwrite : Paints t (copyPixel x y dy j s i)
      (InRect (x + i) (y + j) 1 1)
      fun _ _ => s.read (x + i) (y + j + dy) :=
    write_paints (by omega) hcol _
  -- a read leaves the words as they are
  exact ⟨hwrite.W, hwrite.H, hwrite.pitch, hwrite.inside, hwrite.outside⟩

/-- The copy, up to pixel `i` of row `j`. -/
def Copied (x y w : Int) (j i : Nat) (col row : Int) : Prop :=
  InRect x y w j col row ∨ InRect x (y + j) i 1 col row

/-- What a pixel is copied from has not been painted over. -/
theorem copyRow_paints (hf : Fits s x y w h) (hdy : 0 ≤ dy) {j : Nat}
    {t : Lfb}
    (ht : Paints s t (InRect x y w j) fun col row => s.read col (row + dy)) :
    Paints s (upTo w.toNat (copyPixel x y dy j) t)
      (Copied x y w j w.toNat) fun col row => s.read col (row + dy) := by
  have hwide := hf.wide
  have hleft := hf.left
  have hright := hf.right
  refine upTo_inv (fun i u => Paints s u (Copied x y w j i)
    fun col row => s.read col (row + dy)) ?_ fun i hi u hu => ?_
  · refine ht.congr (fun col row => ?_) fun _ _ _ => rfl
    unfold Copied InRect
    omega
  · refine hu.grow (copyPixel_paints (hu.fits hf) hi) ?_ ?_
    · rintro col row ⟨hl, hr, htop, hb⟩
      obtain rfl : col = x + i := by omega
      obtain rfl : row = y + j := by omega
      refine hu.outside _ _ (by omega) (by omega) ?_
      unfold Copied InRect
      omega
    · intro col row
      unfold Copied InRect
      push_cast
      omega

/-- The region moves up by `dy`, and its last `dy` rows are filled. -/
theorem lfbScrollUp_paints (hf : Fits s x y w h) (hdy : 0 ≤ dy)
    (hdy' : dy ≤ h) (fill : UInt32) :
    Paints s (lfbScrollUp s x y w h dy fill) (InRect x y w h)
      fun col row =>
        if InRect x y w (h - dy) col row then s.read col (row + dy)
        else fill := by
  have hwide := hf.wide
  have hleft := hf.left
  have htop := hf.top
  have hright := hf.right
  have hbottom := hf.bottom
  have hwidth := hf.width
  rw [lfbScrollUp_eq]
  have hcopy : Paints s (copyRows s x y w h dy)
      (InRect x y w (h - dy).toNat) fun col row => s.read col (row + dy) := by
    unfold copyRows
    refine upTo_inv (fun n t => Paints s t (InRect x y w n)
      fun col row => s.read col (row + dy)) ?_ fun j hj t ht => ?_
    · exact Paints.nothing s fun col row => not_inRect (.inr (by omega))
    · refine (copyRow_paints hf hdy ht).congr (fun col row => ?_)
        fun _ _ _ => rfl
      unfold Copied InRect
      push_cast
      omega
  have hfill : Fits (copyRows s x y w h dy) x (y + h - dy) w dy :=
    hcopy.fits ⟨hwide, hleft, hwidth, hright, by omega, hdy, by omega⟩
  have hcopy' : Paints s (copyRows s x y w h dy) (InRect x y w (h - dy))
      fun col row =>
        if InRect x y w (h - dy) col row then s.read col (row + dy)
        else fill := by
    rw [Int.toNat_of_nonneg (by omega)] at hcopy
    refine hcopy.congr (fun _ _ => Iff.rfl) fun col row hin => ?_
    rw [if_pos hin]
  refine hcopy'.grow (lfbFill_paints hfill fill) ?_ ?_
  · intro col row hin
    rw [if_neg]
    unfold InRect at hin ⊢
    omega
  · intro col row
    unfold InRect
    omega

end Scroll

end Thuos.Video
