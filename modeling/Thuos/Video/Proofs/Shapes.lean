/-
Where the shapes are.

A disc stays in the square around it (`lfbDisc_within`) and a box with
round corners in its rectangle (`lfbRoundFill_within`), for they are rows
of fills: the half of a row of a disc is a root, which `isqrt` finds
(`isqrt_eq`) and which is no longer than the radius. Whatever is drawn, the
screen keeps its size (`Draws`).
-/
import Thuos.Video.Proofs.FillPixels
import Thuos.Video.Shapes

namespace Thuos.Video

open Loop

-- ================================================================ the fills

section Fills

variable {s : Lfb} {x y w h : Int}

/-- A fill of a rectangle that is inside another one. -/
theorem fill_within {x' y' w' h' : Int} (rgb : UInt32)
    (hx : x ≤ x') (hw : x' + w' ≤ x + w) (hy : y ≤ y')
    (hh : y' + h' ≤ y + h) :
    Within (Seen s x y w h) s (lfbFill s x' y' w' h' rgb) := by
  refine (lfbFill_within s x' y' w' h' rgb).mono fun col row hin => ?_
  obtain ⟨⟨hl, hr, ht, hb⟩, hscreen⟩ := hin
  refine ⟨⟨?_, ?_, ?_, ?_⟩, hscreen⟩ <;> omega

/-- A loop of fills inside a rectangle. -/
theorem upTo_fill_within {n : Nat} {fx fy fw fh : Nat → Int} (rgb : UInt32)
    (hx : ∀ i < n, x ≤ fx i ∧ fx i + fw i ≤ x + w)
    (hy : ∀ i < n, y ≤ fy i ∧ fy i + fh i ≤ y + h) :
    Within (Seen s x y w h) s
      (upTo n (fun t i => lfbFill t (fx i) (fy i) (fw i) (fh i) rgb) s) := by
  refine upTo_within fun i hi t ht => ?_
  refine (fill_within rgb (hx i hi).1 (hx i hi).2 (hy i hi).1
    (hy i hi).2).mono fun col row hin => ?_
  exact (ht.seen ..).mp hin

end Fills

-- ================================================================= the discs

/-- With turns enough the loop of `isqrt` ends at the root. -/
theorem isqrtLoop_eq (n : Nat) : ∀ fuel x : Nat, x * x ≤ n → n ≤ x + fuel →
    isqrtLoop n fuel x = (n.sqrt : Int) := by
  intro fuel
  induction fuel with
  | zero =>
      intro x hx hfuel
      have hroot : x = n.sqrt := Nat.eq_sqrt.mpr ⟨hx, by nlinarith⟩
      rw [← hroot]
      rfl
  | succ fuel ih =>
      intro x hx hfuel
      unfold isqrtLoop
      by_cases hnext : (x + 1) * (x + 1) ≤ n
      · rw [if_pos (by exact_mod_cast hnext)]
        exact ih (x + 1) hnext (by omega)
      · rw [if_neg (by exact_mod_cast hnext)]
        have hroot : x = n.sqrt := Nat.eq_sqrt.mpr ⟨hx, by omega⟩
        rw [← hroot]

theorem isqrt_eq (n : Nat) : isqrt n = (n.sqrt : Int) :=
  isqrtLoop_eq n n 0 (Nat.zero_le n) (by omega)

/-- The half of a row of a disc is no longer than its radius. -/
theorem half_le {r : Int} (hr : 0 ≤ r) (dy : Int) (hlow : -r ≤ dy)
    (hhigh : dy ≤ r) :
    0 ≤ isqrt (r * r - dy * dy) ∧ isqrt (r * r - dy * dy) ≤ r := by
  have hle : 0 ≤ r * r - dy * dy := by nlinarith
  obtain ⟨n, hn⟩ := Int.eq_ofNat_of_zero_le hle
  obtain ⟨m, rfl⟩ := Int.eq_ofNat_of_zero_le hr
  have hnm : n ≤ m * m := by
    have hdy : 0 ≤ dy * dy := mul_self_nonneg dy
    have hcast : (n : Int) ≤ (m * m : Nat) := by
      push_cast
      omega
    omega
  have hroot : n.sqrt ≤ m := Nat.sqrt_eq m ▸ Nat.sqrt_le_sqrt hnm
  rw [hn, isqrt_eq]
  omega

/-- A disc stays in the square around it. -/
theorem lfbDisc_within (s : Lfb) (cx cy : Int) {r : Int} (hr : 0 ≤ r)
    (rgb : UInt32) :
    Within (Seen s (cx - r) (cy - r) (2 * r + 1) (2 * r + 1)) s
      (lfbDisc s cx cy r rgb) := by
  have hhalf : ∀ i < (2 * r + 1).toNat,
      0 ≤ isqrt (r * r - ((i : Nat) - r) * ((i : Nat) - r))
        ∧ isqrt (r * r - ((i : Nat) - r) * ((i : Nat) - r)) ≤ r :=
    fun i hi => half_le hr _ (by omega) (by omega)
  unfold lfbDisc
  refine upTo_fill_within rgb (fun i hi => ?_) fun i hi => ?_
  · have hi' := hhalf i hi
    omega
  · omega

/-- The pixel is in a disc. -/
def InDisc (cx cy r col row : Int) : Prop :=
  (col - cx) * (col - cx) + (row - cy) * (row - cy) ≤ r * r

instance (cx cy r col row : Int) : Decidable (InDisc cx cy r col row) :=
  inferInstanceAs (Decidable (_ ≤ _))

/-- The half of a row reaches every pixel of the disc in it. -/
theorem le_half {dx n : Int} (h : dx * dx ≤ n) :
    -isqrt n ≤ dx ∧ dx ≤ isqrt n := by
  have hpos : 0 ≤ n := Int.le_trans (mul_self_nonneg dx) h
  obtain ⟨m, rfl⟩ := Int.eq_ofNat_of_zero_le hpos
  have hroot : dx.natAbs ≤ m.sqrt := by
    rw [Nat.le_sqrt, ← Int.ofNat_le, Int.natAbs_mul_self]
    exact h
  rw [isqrt_eq]
  omega

/-- So the fill of a row is the row of the disc. -/
theorem row_of_disc {cx cy r col dy : Int}
    (h : InDisc cx cy r col (cy + dy)) :
    InRect (cx - isqrt (r * r - dy * dy)) (cy + dy)
      (2 * isqrt (r * r - dy * dy) + 1) 1 col (cy + dy) := by
  unfold InDisc at h
  have hdy : cy + dy - cy = dy := by omega
  rw [hdy] at h
  obtain ⟨hlow, hhigh⟩ := @le_half (col - cx) (r * r - dy * dy) (by omega)
  refine ⟨?_, ?_, ?_, ?_⟩ <;> omega

/-- The rows of a disc. -/
theorem rows_of_disc {cx cy r col row : Int} (hr : 0 ≤ r)
    (h : InDisc cx cy r col row) : -r ≤ row - cy ∧ row - cy ≤ r := by
  unfold InDisc at h
  have hcol : 0 ≤ (col - cx) * (col - cx) := mul_self_nonneg _
  exact abs_le.mp (abs_le_of_sq_le_sq (by nlinarith) hr)

/-- A disc inks each of its pixels that is on the screen. -/
theorem lfbDisc_inks (s : Lfb) (cx cy : Int) {r : Int} (hr : 0 ≤ r)
    (rgb : UInt32) :
    Inks rgb s (lfbDisc s cx cy r rgb)
      ∧ ∀ col row, InDisc cx cy r col row → s.Inside (col, row) →
        (lfbDisc s cx cy r rgb).read col row = rgb := by
  unfold lfbDisc
  dsimp only
  obtain ⟨hinks, hall⟩ := upTo_inks (c := rgb) (s := s)
    (fun t (i : Nat) => lfbFill t
      (cx - isqrt (r * r - ((i : Int) - r) * ((i : Int) - r)))
      (cy + ((i : Int) - r))
      (2 * isqrt (r * r - ((i : Int) - r) * ((i : Int) - r)) + 1) 1 rgb)
    (2 * r + 1).toNat
    (fun i p => ∃ col, InDisc cx cy r col (cy + ((i : Int) - r))
      ∧ s.Inside (col, cy + ((i : Int) - r))
      ∧ p = (cy + ((i : Int) - r)) * s.pitchPx + col)
    fun i hi t ht => by
      obtain ⟨hfill, hread⟩ := lfbFill_inks t
        (cx - isqrt (r * r - ((i : Int) - r) * ((i : Int) - r)))
        (cy + ((i : Int) - r))
        (2 * isqrt (r * r - ((i : Int) - r) * ((i : Int) - r)) + 1) 1 rgb
      refine ⟨hfill, ?_⟩
      rintro p ⟨col, hdisc, hinside, rfl⟩
      have hseen := hread col (cy + ((i : Int) - r))
        ⟨row_of_disc hdisc, (ht.inside _).mpr hinside⟩
      unfold Lfb.read at hseen
      rw [hfill.pitch, ht.pitch] at hseen
      exact hseen
  refine ⟨hinks, fun col row hdisc hinside => ?_⟩
  -- the turn of the row
  have hrange := rows_of_disc hr hdisc
  have hrow : cy + (((row - cy + r).toNat : Int) - r) = row := by omega
  unfold Lfb.read
  rw [hinks.pitch]
  refine hall (row - cy + r).toNat (by omega) _ ⟨col, ?_, ?_, ?_⟩
  · rw [hrow]
    exact hdisc
  · rw [hrow]
    exact hinside
  · rw [hrow]

-- ================================================================= the boxes

/-- A corner is cut off the row, and never adds to it. -/
theorem cornerInset_nonneg {j h r : Int} (hj : 0 ≤ j) (hjh : j < h) :
    0 ≤ cornerInset j h r := by
  unfold cornerInset
  dsimp only
  by_cases htop : j < r
  · rw [if_pos htop, if_neg (by omega)]
    have hhalf := half_le (r := r) (by omega) (r - j) (by omega)
      (by omega)
    omega
  · rw [if_neg htop]
    by_cases hbottom : j ≥ h - r
    · rw [if_pos hbottom, if_neg (by omega)]
      have hhalf := half_le (r := r) (by omega) (r - (h - 1 - j))
        (by omega) (by omega)
      omega
    · rw [if_neg hbottom, if_pos (by omega)]

/-- A box with round corners stays in its rectangle. -/
theorem lfbRoundFill_within (s : Lfb) (x y w h r : Int) (rgb : UInt32) :
    Within (Seen s x y w h) s (lfbRoundFill s x y w h r rgb) := by
  unfold lfbRoundFill
  refine upTo_fill_within rgb (fun j hj => ?_) fun j hj => ?_
  · have hinset := cornerInset_nonneg (j := j) (h := h)
      (r := if (if r * 2 > h then h.tdiv 2 else r) * 2 > w then w.tdiv 2
        else if r * 2 > h then h.tdiv 2 else r) (by omega) (by omega)
    omega
  · omega

-- ============================================================ the whole screen

section Screen

variable (s : Lfb) (x y w h : Int)

/-- Nothing that is drawn changes the size of the screen. -/
abbrev Draws (s t : Lfb) : Prop := Within (fun _ _ => True) s t

theorem Within.draws {R : Int → Int → Prop} {s t : Lfb}
    (hd : Within R s t) : Draws s t := hd.mono fun _ _ _ => trivial

theorem lfbRect_draws (rgb : UInt32) : Draws s (lfbRect s x y w h rgb) := by
  unfold lfbRect
  have htop := (lfbFill_within s x y w 1 rgb).draws
  have hbottom := htop.trans (lfbFill_within _ x (y + h - 1) w 1 rgb).draws
  have hleft := hbottom.trans (lfbFill_within _ x y 1 h rgb).draws
  exact hleft.trans (lfbFill_within _ (x + w - 1) y 1 h rgb).draws

theorem lfbChar_draws (glyph : UInt8 → Nat → UInt8) (ch : Int8) (fg : UInt32)
    (bg scale : Int) : Draws s (lfbChar glyph s x y ch fg bg scale) := by
  unfold lfbChar
  refine upTo_within fun r _ t _ => ?_
  refine upTo_within fun c _ u _ => ?_
  split
  · exact (lfbFill_within ..).draws
  · split
    · exact (lfbFill_within ..).draws
    · exact Within.refl _ u

theorem lfbText_draws (glyph : UInt8 → Nat → UInt8) (str : CStr)
    (fg : UInt32) (bg scale : Int) :
    Draws s (lfbText glyph s x y str fg bg scale) := by
  unfold lfbText
  generalize str.chars = cs
  induction cs generalizing s x with
  | nil => exact Within.refl _ s
  | cons c cs ih => exact (lfbChar_draws ..).trans (ih _ _)

end Screen

end Thuos.Video
