/-
A fill, pixel by pixel.

`lfb_fill` clips its rectangle to the screen and then writes the words of
it; `lfb_pixel` looks at each pixel by itself. Along one side the clipping
leaves the places of the rectangle that are on the screen, and no others
(`clip_iff`), so the loops over the whole rectangle do nothing outside the
window that is left, and inside it what the clipped loops do
(`upTo_window`). The two leave the same framebuffer, and have written the
same words in the same order. What they paint is the part of the rectangle
that is on the screen (`lfbFill_inks`, `lfbFill_within`).
-/
import Thuos.Lib.Word32
import Thuos.Video.Proofs.Within

namespace Thuos.Video

open Loop Word32

-- =============================================================== the clipping

/-- A side of the rectangle that begins off the screen. -/
def clipLow (x w : Int) : Int × Int := if x < 0 then (0, w + x) else (x, w)

/-- A side that ends off the screen. -/
def clipHigh (x w size : Int) : Int := if x + w > size then size - x else w

/-- Where a side begins, and how long it is, once it is clipped. -/
def clip (x w size : Int) : Int × Int :=
  ((clipLow x w).1, clipHigh (clipLow x w).1 (clipLow x w).2 size)

section Clip

variable {x w size : Int}

theorem lfbFill_eq (s : Lfb) (x y w h : Int) (rgb : UInt32) :
    lfbFill s x y w h rgb
      = upTo (clip y h s.H).2.toNat (fun t (j : Nat) =>
          upTo (clip x w s.W).2.toNat (fun t (i : Nat) =>
            t.write ((clip x w s.W).1 + i) ((clip y h s.H).1 + j) rgb) t)
          s := by
  unfold lfbFill clip clipHigh clipLow
  by_cases hx : x < 0
  · by_cases hy : y < 0
    · simp only [if_pos hx, if_pos hy]
    · simp only [if_pos hx, if_neg hy]
  · by_cases hy : y < 0
    · simp only [if_neg hx, if_pos hy]
    · simp only [if_neg hx, if_neg hy]

/-- The places that are left are those on the screen. -/
theorem clip_iff (x w size i : Int) :
    (clip x w size).1 ≤ i ∧ i < (clip x w size).1 + (clip x w size).2
      ↔ (x ≤ i ∧ i < x + w) ∧ 0 ≤ i ∧ i < size := by
  unfold clip clipHigh clipLow
  by_cases hx : x < 0
  · rw [if_pos hx]
    dsimp only
    split
    · omega
    · omega
  · rw [if_neg hx]
    dsimp only
    split
    · omega
    · omega

theorem clip_low (x w size : Int) :
    x ≤ (clip x w size).1 ∧ 0 ≤ (clip x w size).1 := by
  unfold clip clipLow
  split
  · dsimp only
    omega
  · dsimp only
    omega

/-- Of a side with something left, the turns before the window, those in
it, and those after it. -/
theorem clip_window (h : 0 < (clip x w size).2) :
    ((clip x w size).1 - x).toNat + (clip x w size).2.toNat ≤ w.toNat := by
  obtain ⟨hlow, -⟩ := clip_low x w size
  have hlast := (clip_iff x w size
    ((clip x w size).1 + (clip x w size).2 - 1)).mp (by omega)
  omega

/-- The sums and differences that the clipping computes, and the last
place that the loop over the whole side asks for. -/
def ClipInts (x w size : Int) : Prop :=
  InInt (w + x) ∧ InInt ((clipLow x w).1 + (clipLow x w).2)
    ∧ InInt (size - (clipLow x w).1) ∧ ∀ i, 0 ≤ i → i < w → InInt (x + i)

theorem clip_ints (hx : -2 ^ 29 ≤ x ∧ x ≤ 2 ^ 29)
    (hw : -2 ^ 29 ≤ w ∧ w ≤ 2 ^ 29) (hsize : 0 ≤ size ∧ size < 2 ^ 31) :
    ClipInts x w size := by
  unfold ClipInts InInt clipLow
  by_cases hneg : x < 0
  · rw [if_pos hneg]
    dsimp only
    refine ⟨?_, ?_, ?_, ?_⟩ <;> omega
  · rw [if_neg hneg]
    dsimp only
    refine ⟨?_, ?_, ?_, ?_⟩ <;> omega

end Clip

-- ================================================================ the pixels

/-- `lfb_pixel` for each pixel of a rectangle, row by row. -/
def pixelLoops (s : Lfb) (x y w h : Int) (rgb : UInt32) : Lfb :=
  upTo h.toNat (fun s (j : Nat) =>
    upTo w.toNat (fun s (i : Nat) => lfbPixel s (x + i) (y + j) rgb) s) s

section Pixels

variable {s t : Lfb} {x y w h : Int} {rgb : UInt32}

/-- As `int`s, the unsigned comparison is two signed ones. -/
theorem unsigned_lt_iff {v size : Int} (hv : InInt v)
    (hsize : 0 ≤ size ∧ size < 2 ^ 31) :
    unsigned v < unsigned size ↔ 0 ≤ v ∧ v < size := by
  unfold unsigned
  unfold InInt at hv
  omega

/-- `lfb_pixel` on a framebuffer of the size of `s`. -/
def pixelOf (s : Lfb) (rgb : UInt32) (t : Lfb) (col row : Int) : Lfb :=
  if s.Inside (col, row) then t.write col row rgb else t

theorem pixelOf_grows (s : Lfb) (rgb : UInt32) (t : Lfb) (col row : Int) :
    Grows t (pixelOf s rgb t col row) := by
  unfold pixelOf
  split
  · exact grows_write t col row rgb
  · exact Grows.refl t

/-- The size of a screen, in `int`s. -/
structure Sized (s : Lfb) : Prop where
  width : 1 ≤ s.W
  height : 1 ≤ s.H
  wide : s.W < 2 ^ 31
  high : s.H < 2 ^ 31

theorem lfbPixel_eq (hs : Sized s) (ht : Grows s t) {col row : Int}
    (hcol : InInt col) (hrow : InInt row) :
    lfbPixel t col row rgb = pixelOf s rgb t col row := by
  have hwidth := hs.width
  have hheight := hs.height
  have hcols : unsigned col < unsigned s.W ↔ 0 ≤ col ∧ col < s.W :=
    unsigned_lt_iff hcol ⟨by omega, hs.wide⟩
  have hrows : unsigned row < unsigned s.H ↔ 0 ≤ row ∧ row < s.H :=
    unsigned_lt_iff hrow ⟨by omega, hs.high⟩
  have hiff : unsigned col < unsigned t.W ∧ unsigned row < unsigned t.H
      ↔ s.Inside (col, row) := by
    rw [ht.W, ht.H, hcols, hrows, and_assoc]
    rfl
  unfold lfbPixel pixelOf
  by_cases hin : s.Inside (col, row)
  · rw [if_pos hin, if_pos (hiff.mpr hin)]
  · rw [if_neg hin, if_neg (mt hiff.mp hin)]

/-- The loops over the whole rectangle, on a framebuffer of the size of
`s` throughout. -/
theorem pixelLoops_eq (hs : Sized s)
    (hx : ∀ i, 0 ≤ i → i < w → InInt (x + i))
    (hy : ∀ j, 0 ≤ j → j < h → InInt (y + j)) :
    pixelLoops s x y w h rgb
      = upTo h.toNat (fun t (j : Nat) =>
          upTo w.toNat (fun t (i : Nat) =>
            pixelOf s rgb t (x + i) (y + j)) t) s := by
  have hpixel : ∀ j < h.toNat, ∀ i < w.toNat, ∀ t, Grows s t →
      lfbPixel t (x + (i : Nat)) (y + (j : Nat)) rgb
        = pixelOf s rgb t (x + i) (y + j) :=
    fun j hj i hi t ht => lfbPixel_eq hs ht (hx i (by omega) (by omega))
      (hy j (by omega) (by omega))
  have hrow : ∀ j < h.toNat, ∀ t, Grows s t →
      upTo w.toNat (fun t (i : Nat) => lfbPixel t (x + i) (y + j) rgb) t
        = upTo w.toNat (fun t (i : Nat) =>
            pixelOf s rgb t (x + i) (y + j)) t := by
    intro j hj t ht
    refine upTo_congr (Grows s) ht (fun i hi u hu => ?_) (hpixel j hj)
    rw [hpixel j hj i hi u hu]
    exact hu.trans (pixelOf_grows s rgb u _ _)
  unfold pixelLoops
  refine upTo_congr (Grows s) (Grows.refl s) (fun j hj t ht => ?_) hrow
  rw [hrow j hj t ht]
  exact ht.trans (upTo_grows fun i u => pixelOf_grows s rgb u _ _)

/-- Along a clipped side, the turns that do something are those of the
window. -/
theorem upTo_clip (body : Lfb → Int → Lfb) {size : Int}
    (hidle : ∀ i, ¬ (0 ≤ i ∧ i < size) → ∀ t, body t i = t) (t : Lfb) :
    upTo w.toNat (fun t (i : Nat) => body t (x + i)) t
      = upTo (clip x w size).2.toNat
          (fun t (i : Nat) => body t ((clip x w size).1 + i)) t := by
  have hiff := clip_iff x w size
  obtain ⟨hlow, -⟩ := clip_low x w size
  have hout : ∀ i < w.toNat, ¬ ((clip x w size).1 ≤ x + (i : Nat)
      ∧ x + (i : Nat) < (clip x w size).1 + (clip x w size).2) →
      ∀ t, body t (x + (i : Nat)) = t := by
    intro i hi hnot
    refine hidle _ fun hin => hnot ((hiff _).mpr ⟨⟨?_, ?_⟩, hin⟩)
    · omega
    · omega
  by_cases hleft : 0 < (clip x w size).2
  · have hwindow := clip_window hleft
    rw [upTo_window hwindow fun i hi hi' => hout i hi (by omega)]
    refine upTo_congr (fun _ => True) trivial (fun _ _ _ _ => trivial) ?_
    intro i _ t _
    congr 1
    push_cast
    omega
  · rw [upTo_idle fun i hi => hout i hi (by omega),
      Int.toNat_of_nonpos (by omega), upTo_zero]

/-- A row of the screen. -/
theorem pixelRow_eq {row : Int} (hrow : 0 ≤ row ∧ row < s.H) (t : Lfb) :
    upTo w.toNat (fun t (i : Nat) => pixelOf s rgb t (x + i) row) t
      = upTo (clip x w s.W).2.toNat
          (fun t (i : Nat) => t.write ((clip x w s.W).1 + i) row rgb) t := by
  have hoff : ∀ i, ¬ (0 ≤ i ∧ i < s.W) → ∀ t, pixelOf s rgb t i row = t :=
    fun i hi t => if_neg fun hin => hi ⟨hin.1, hin.2.1⟩
  rw [upTo_clip (fun t i => pixelOf s rgb t i row) hoff]
  refine upTo_congr (fun _ => True) trivial (fun _ _ _ _ => trivial) ?_
  intro i hi t _
  have hcol := (clip_iff x w s.W
    ((clip x w s.W).1 + (i : Nat))).mp (by omega)
  exact if_pos ⟨hcol.2.1, hcol.2.2, hrow⟩

/-- The fill is the pixels, in the same order. -/
theorem fill_eq_pixels (hs : Sized s)
    (hx : ∀ i, 0 ≤ i → i < w → InInt (x + i))
    (hy : ∀ j, 0 ≤ j → j < h → InInt (y + j)) :
    lfbFill s x y w h rgb = pixelLoops s x y w h rgb := by
  let row (t : Lfb) (j : Int) : Lfb :=
    upTo w.toNat (fun t (i : Nat) => pixelOf s rgb t (x + i) j) t
  have hoff : ∀ j, ¬ (0 ≤ j ∧ j < s.H) → ∀ t, row t j = t := by
    intro j hj t
    exact upTo_idle (fun i _ u => if_neg fun hin => hj hin.2.2) t
  rw [pixelLoops_eq hs hx hy, lfbFill_eq]
  refine Eq.trans ?_ (upTo_clip row hoff s).symm
  refine upTo_congr (fun _ => True) trivial (fun _ _ _ _ => trivial) ?_
  intro j hj t _
  have hrow := (clip_iff y h s.H
    ((clip y h s.H).1 + (j : Nat))).mp (by omega)
  exact (pixelRow_eq hrow.2 t).symm

end Pixels

-- ============================================================= what is painted

section Painted

variable {s t u : Lfb} {x y w h : Int} {c : UInt32}

/-- The clipped rectangle is the part that is on the screen. -/
theorem seen_iff (col row : Int) :
    InRect (clip x w s.W).1 (clip y h s.H).1 (clip x w s.W).2
        (clip y h s.H).2 col row
      ↔ Seen s x y w h col row := by
  have hcol := clip_iff x w s.W col
  have hrow := clip_iff y h s.H row
  unfold Seen InRect Lfb.Inside
  dsimp only
  constructor
  · intro hin
    obtain ⟨hl, hr, ht, hb⟩ := hin
    obtain ⟨⟨hx, hxw⟩, h0, hW⟩ := hcol.mp ⟨hl, hr⟩
    obtain ⟨⟨hy, hyh⟩, h0', hH⟩ := hrow.mp ⟨ht, hb⟩
    exact ⟨⟨hx, hxw, hy, hyh⟩, h0, hW, h0', hH⟩
  · intro hin
    obtain ⟨⟨hx, hxw, hy, hyh⟩, h0, hW, h0', hH⟩ := hin
    obtain ⟨hl, hr⟩ := hcol.mpr ⟨⟨hx, hxw⟩, h0, hW⟩
    obtain ⟨ht, hb⟩ := hrow.mpr ⟨⟨hy, hyh⟩, h0', hH⟩
    exact ⟨hl, hr, ht, hb⟩

/-- A fill stays in the part of its rectangle that is on the screen. -/
theorem lfbFill_within (s : Lfb) (x y w h : Int) (rgb : UInt32) :
    Within (Seen s x y w h) s (lfbFill s x y w h rgb) := by
  rw [lfbFill_eq]
  refine upTo_within fun j hj t _ => ?_
  refine upTo_within fun i hi u _ => ?_
  refine write_within ((seen_iff _ _).mp ?_) rgb
  refine ⟨?_, ?_, ?_, ?_⟩ <;> omega

/-- The same size, and the words that are `c` are still `c`. -/
structure Inks (c : UInt32) (s t : Lfb) : Prop where
  W : t.W = s.W
  H : t.H = s.H
  pitch : t.pitchPx = s.pitchPx
  keep : ∀ i, s.word i = c → t.word i = c

theorem Inks.refl (s : Lfb) : Inks c s s := ⟨rfl, rfl, rfl, fun _ h => h⟩

theorem Inks.trans (h : Inks c s t) (h' : Inks c t u) : Inks c s u :=
  ⟨h'.W.trans h.W, h'.H.trans h.H, h'.pitch.trans h.pitch,
    fun i hi => h'.keep i (h.keep i hi)⟩

theorem inks_write (s : Lfb) (c : UInt32) (col row : Int) :
    Inks c s (s.write col row c)
      ∧ (s.write col row c).word (row * s.pitchPx + col) = c := by
  refine ⟨⟨rfl, rfl, rfl, fun i hi => ?_⟩, Function.update_self ..⟩
  by_cases hplace : i = row * s.pitchPx + col
  · subst hplace
    exact Function.update_self ..
  · exact (Function.update_of_ne hplace ..).trans hi

/-- The screen is the same. -/
theorem Inks.inside (h : Inks c s t) (p : Int × Int) :
    t.Inside p ↔ s.Inside p := by
  unfold Lfb.Inside
  rw [h.W, h.H]

/-- A pixel that is `c` is still `c`. -/
theorem Inks.read (h : Inks c s t) {col row : Int}
    (hread : s.read col row = c) : t.read col row = c := by
  unfold Lfb.read at hread ⊢
  rw [h.pitch]
  exact h.keep _ hread

/-- A loop each of whose turns inks some places inks them all. -/
theorem upTo_inks (body : Lfb → Nat → Lfb) (n : Nat) (D : Nat → Int → Prop)
    (hbody : ∀ i < n, ∀ t, Inks c s t →
      Inks c t (body t i) ∧ ∀ p, D i p → (body t i).word p = c) :
    Inks c s (upTo n body s)
      ∧ ∀ i < n, ∀ p, D i p → (upTo n body s).word p = c := by
  refine upTo_inv (fun k t => Inks c s t ∧ ∀ i < k, ∀ p, D i p →
    t.word p = c) ⟨Inks.refl s, ?_⟩ fun k hk t ⟨hinks, hdone⟩ => ?_
  · intro i hi
    exact absurd hi (Nat.not_lt_zero i)
  · obtain ⟨hturn, hnew⟩ := hbody k hk t hinks
    refine ⟨hinks.trans hturn, fun i hi p hp => ?_⟩
    by_cases hik : i = k
    · subst hik
      exact hnew p hp
    · exact hturn.keep p (hdone i (by omega) p hp)

/-- A fill inks every pixel of its part that is on the screen. -/
theorem lfbFill_inks (s : Lfb) (x y w h : Int) (c : UInt32) :
    Inks c s (lfbFill s x y w h c)
      ∧ ∀ col row, Seen s x y w h col row →
        (lfbFill s x y w h c).read col row = c := by
  have hseen : ∀ col row, Seen s x y w h col row →
      InRect (clip x w s.W).1 (clip y h s.H).1 (clip x w s.W).2
        (clip y h s.H).2 col row := fun col row => (seen_iff col row).mpr
  rw [lfbFill_eq]
  generalize (clip x w s.W).1 = left at *
  generalize (clip x w s.W).2 = width at *
  generalize (clip y h s.H).1 = top at *
  generalize (clip y h s.H).2 = height at *
  have hrow : ∀ j < height.toNat, ∀ t, Inks c s t →
      Inks c t (upTo width.toNat (fun t (i : Nat) =>
          t.write (left + i) (top + j) c) t)
        ∧ ∀ p, (∃ i : Nat, i < width.toNat
            ∧ p = (top + j) * s.pitchPx + (left + i)) →
          (upTo width.toNat (fun t (i : Nat) =>
            t.write (left + i) (top + j) c) t).word p = c := by
    intro j hj t ht
    obtain ⟨hinks, hall⟩ := upTo_inks
      (fun t (i : Nat) => t.write (left + i) (top + j) c) width.toNat
      (fun i p => p = (top + j) * s.pitchPx + (left + i))
      fun i hi (u : Lfb) hu => by
        obtain ⟨hwrite, hplace⟩ := inks_write u c (left + i) (top + j)
        refine ⟨hwrite, fun p hp => ?_⟩
        rw [hp, ← (ht.trans hu).pitch]
        exact hplace
    exact ⟨hinks, fun p ⟨i, hi, hp⟩ => hall i hi p hp⟩
  obtain ⟨hinks, hall⟩ := upTo_inks _ _ _ hrow
  refine ⟨hinks, fun col row hin => ?_⟩
  obtain ⟨hl, hr, ht, hb⟩ := hseen col row hin
  have hcol : left + ((col - left).toNat : Nat) = col := by omega
  have hline : top + ((row - top).toNat : Nat) = row := by omega
  unfold Lfb.read
  rw [hinks.pitch]
  refine hall (row - top).toNat (by omega) _
    ⟨(col - left).toNat, by omega, ?_⟩
  rw [hcol, hline]

/-- A fill writes what `lfb_pixel` would write for each pixel of the
rectangle: those that are on the screen have the colour, and every other
word of the rows, in the padding or off the screen, is as it was. The sums
and differences of the clipping are `int`s. -/
theorem lfb_fill_is_pixels (s : Lfb) (x y w h : Int) (rgb : UInt32)
    (hs : Sized s) (hwide : s.W ≤ s.pitchPx)
    (hx : -2 ^ 29 ≤ x ∧ x ≤ 2 ^ 29) (hy : -2 ^ 29 ≤ y ∧ y ≤ 2 ^ 29)
    (hw : -2 ^ 29 ≤ w ∧ w ≤ 2 ^ 29) (hh : -2 ^ 29 ≤ h ∧ h ≤ 2 ^ 29) :
    lfbFill s x y w h rgb = pixelLoops s x y w h rgb
      ∧ (∀ col row, Seen s x y w h col row →
          (lfbFill s x y w h rgb).read col row = rgb)
      ∧ (∀ col row, 0 ≤ col → col < s.pitchPx → ¬ Seen s x y w h col row →
          (lfbFill s x y w h rgb).read col row = s.read col row)
      ∧ ClipInts x w s.W ∧ ClipInts y h s.H := by
  have hwidth := hs.width
  have hheight := hs.height
  have hcols : ClipInts x w s.W := clip_ints hx hw ⟨by omega, hs.wide⟩
  have hrows : ClipInts y h s.H := clip_ints hy hh ⟨by omega, hs.high⟩
  have hseen : ∀ col row, Seen s x y w h col row →
      0 ≤ col ∧ col < s.pitchPx := by
    intro col row hin
    obtain ⟨h0, hW, -⟩ := hin.2
    exact ⟨h0, Int.lt_of_lt_of_le hW hwide⟩
  refine ⟨fill_eq_pixels hs hcols.2.2.2 hrows.2.2.2, ?_, ?_, hcols, hrows⟩
  · exact (lfbFill_inks s x y w h rgb).2
  · intro col row hlow hhigh hout
    exact (lfbFill_within s x y w h rgb).read hseen hlow hhigh hout

/-- Six by five pixels, in rows of eight words. -/
def paddedLfb : Lfb where
  fbp := 0xFD000000
  W := 6
  H := 5
  pitchPx := 8
  active := true
  word := fun _ => 0
  log := []

/-- A rectangle that is off three edges of it. -/
theorem lfb_fill_is_pixels_edges :
    lfbFill paddedLfb (-2) 3 9 9 7 = pixelLoops paddedLfb (-2) 3 9 9 7
      ∧ (lfbFill paddedLfb (-2) 3 9 9 7).read 3 3 = 7
      ∧ (lfbFill paddedLfb (-2) 3 9 9 7).read 6 3 = 0 := by
  have hfill := lfb_fill_is_pixels paddedLfb (-2) 3 9 9 7
    ⟨by decide, by decide, by decide, by decide⟩ (by decide) (by decide)
    (by decide) (by decide) (by decide)
  refine ⟨hfill.1, ?_, ?_⟩
  · exact hfill.2.1 3 3 (by decide)
  · exact hfill.2.2.1 6 3 (by decide) (by decide) (by decide)

end Painted

end Thuos.Video
