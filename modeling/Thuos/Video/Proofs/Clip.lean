/-
Which pixels the drawing functions touch.

`Clean s t` says that `t` comes from `s` by drawing that stays on the
screen: the size is the same, the log has only grown, and if everything in
it was on the screen, everything still is. It is reflexive and transitive,
so a loop of clean steps is clean. A fill is clean whatever it is asked
for (`lfbFill_clean`), and so is a character, which is made of fills. A
scroll is clean when its region is on the screen; else it touches a pixel
that is not (`lfbScrollUp_clean`, `lfbScrollUp_touches`).
-/
import Thuos.Video.Lfb

namespace Thuos.Video

open Loop

/-- The pixel is on the screen. -/
def Lfb.Inside (s : Lfb) (p : Int × Int) : Prop :=
  0 ≤ p.1 ∧ p.1 < s.W ∧ 0 ≤ p.2 ∧ p.2 < s.H

/-- The pixel is in the rectangle. -/
def InRect (x y w h col row : Int) : Prop :=
  x ≤ col ∧ col < x + w ∧ y ≤ row ∧ row < y + h

instance (x y w h col row : Int) : Decidable (InRect x y w h col row) :=
  inferInstanceAs (Decidable (_ ∧ _))

instance (s : Lfb) (p : Int × Int) : Decidable (s.Inside p) :=
  inferInstanceAs (Decidable (_ ∧ _))

/-- Every pixel touched was on the screen. -/
def OnScreen (s : Lfb) : Prop := ∀ p ∈ s.log, s.Inside p

/-- The log has grown, the size is the same. -/
structure Grows (s t : Lfb) : Prop where
  W : t.W = s.W
  H : t.H = s.H
  log : s.log <+: t.log

/-- Drawing that stays on the screen. -/
structure Clean (s t : Lfb) : Prop extends Grows s t where
  keep : OnScreen s → OnScreen t

-- ============================================================== composition

section Compose

variable {s t u : Lfb}

theorem Grows.refl (s : Lfb) : Grows s s := ⟨rfl, rfl, List.prefix_refl _⟩

theorem Grows.trans (h : Grows s t) (h' : Grows t u) : Grows s u :=
  ⟨h'.W.trans h.W, h'.H.trans h.H, h.log.trans h'.log⟩

theorem Clean.refl (s : Lfb) : Clean s s := ⟨Grows.refl s, id⟩

theorem Clean.trans (h : Clean s t) (h' : Clean t u) : Clean s u :=
  ⟨h.toGrows.trans h'.toGrows, fun hs => h'.keep (h.keep hs)⟩

/-- What is on one screen is on the other. -/
theorem Grows.inside_iff (h : Grows s t) (p : Int × Int) :
    t.Inside p ↔ s.Inside p := by
  unfold Lfb.Inside
  rw [h.W, h.H]

/-- A pixel off the screen stays in the log. -/
theorem Grows.off (h : Grows s t) (hs : ¬ OnScreen s) : ¬ OnScreen t := by
  intro ht
  apply hs
  intro p hp
  exact (h.inside_iff p).mp (ht p (h.log.subset hp))

theorem grows_touch (s : Lfb) (col row : Int) : Grows s (s.touch col row) :=
  ⟨rfl, rfl, List.prefix_append _ _⟩

theorem grows_write (s : Lfb) (col row : Int) (rgb : UInt32) :
    Grows s (s.write col row rgb) := ⟨rfl, rfl, List.prefix_append _ _⟩

theorem clean_touch {col row : Int} (h : s.Inside (col, row)) :
    Clean s (s.touch col row) := by
  refine ⟨grows_touch s col row, fun hs p hp => ?_⟩
  cases List.mem_append.mp hp with
  | inl hold => exact hs p hold
  | inr hnew =>
      rw [List.mem_singleton.mp hnew]
      exact h

theorem clean_write {col row : Int} (h : s.Inside (col, row))
    (rgb : UInt32) : Clean s (s.write col row rgb) :=
  ⟨grows_write s col row rgb, (clean_touch h).keep⟩

/-- A loop of clean steps. -/
theorem upTo_clean {body : Lfb → Nat → Lfb} {n : Nat}
    (hbody : ∀ i < n, ∀ t, Clean s t → Clean t (body t i)) :
    Clean s (upTo n body s) :=
  upTo_inv (fun _ t => Clean s t) (Clean.refl s)
    fun i hi t ht => ht.trans (hbody i hi t ht)

theorem upTo_grows {body : Lfb → Nat → Lfb} {n : Nat}
    (hbody : ∀ i t, Grows t (body t i)) : Grows s (upTo n body s) :=
  upTo_inv (fun _ t => Grows s t) (Grows.refl s)
    fun i _ t ht => ht.trans (hbody i t)

end Compose

-- ================================================================ the fills

/-- The clipped loops of `lfb_fill`. -/
theorem fill_loops_clean (s : Lfb) {x y w h : Int} (rgb : UInt32)
    (hx : 0 ≤ x) (hy : 0 ≤ y) (hw : x + w ≤ s.W) (hh : y + h ≤ s.H) :
    Clean s (upTo h.toNat (fun s (j : Nat) =>
      upTo w.toNat (fun s (i : Nat) => s.write (x + i) (y + j) rgb) s) s) := by
  refine upTo_clean fun j hj t ht => ?_
  refine upTo_clean fun i hi u hu => ?_
  refine clean_write ?_ rgb
  have hin : s.Inside (x + i, y + j) := by
    refine ⟨?_, ?_, ?_, ?_⟩ <;> dsimp only <;> omega
  exact (hu.toGrows.inside_iff _).mpr ((ht.toGrows.inside_iff _).mpr hin)

theorem lfbFill_clean (s : Lfb) (x y w h : Int) (rgb : UInt32) :
    Clean s (lfbFill s x y w h rgb) := by
  unfold lfbFill
  -- the corner after clipping, and the size after it
  have hx : 0 ≤ (if x < 0 then ((0 : Int), w + x) else (x, w)).1 := by
    split <;> dsimp only <;> omega
  have hy : 0 ≤ (if y < 0 then ((0 : Int), h + y) else (y, h)).1 := by
    split <;> dsimp only <;> omega
  generalize (if x < 0 then ((0 : Int), w + x) else (x, w)) = xw at *
  generalize (if y < 0 then ((0 : Int), h + y) else (y, h)) = yh at *
  refine fill_loops_clean s rgb hx hy ?_ ?_
  · split <;> omega
  · split <;> omega

theorem lfbChar_clean (glyph : UInt8 → Nat → UInt8) (s : Lfb) (x y : Int)
    (ch : Int8) (fg : UInt32) (bg scale : Int) :
    Clean s (lfbChar glyph s x y ch fg bg scale) := by
  unfold lfbChar
  refine upTo_clean fun r _ t _ => ?_
  refine upTo_clean fun c _ u _ => ?_
  split
  · exact lfbFill_clean ..
  · split
    · exact lfbFill_clean ..
    · exact Clean.refl u

-- =============================================================== the scroll

section Scroll

variable {s : Lfb} {x y w h dy : Int} {fill : UInt32}

/-- One turn of the copy. -/
def copyPixel (x y dy : Int) (j : Nat) (s : Lfb) (i : Nat) : Lfb :=
  (s.touch (x + i) (y + j + dy)).write (x + i) (y + j)
    (s.read (x + i) (y + j + dy))

/-- The copy of `lfb_scroll_up`. -/
def copyRows (s : Lfb) (x y w h dy : Int) : Lfb :=
  upTo (h - dy).toNat (fun s j => upTo w.toNat (copyPixel x y dy j) s) s

theorem lfbScrollUp_eq (s : Lfb) (x y w h dy : Int) (fill : UInt32) :
    lfbScrollUp s x y w h dy fill
      = lfbFill (copyRows s x y w h dy) x (y + h - dy) w dy fill := rfl

theorem copyPixel_grows (x y dy : Int) (j i : Nat) (t : Lfb) :
    Grows t (copyPixel x y dy j t i) :=
  (grows_touch t _ _).trans (grows_write _ _ _ _)

/-- A region on the screen. -/
theorem lfbScrollUp_clean (hx : 0 ≤ x) (hy : 0 ≤ y) (hw : x + w ≤ s.W)
    (hh : y + h ≤ s.H) (hdy : 0 ≤ dy) :
    Clean s (lfbScrollUp s x y w h dy fill) := by
  rw [lfbScrollUp_eq]
  refine Clean.trans ?_ (lfbFill_clean ..)
  refine upTo_clean fun j hj t ht => ?_
  refine upTo_clean fun i hi u hu => ?_
  have hsize := ht.toGrows.trans hu.toGrows
  have hsrc : s.Inside (x + i, y + j + dy) := by
    refine ⟨?_, ?_, ?_, ?_⟩ <;> dsimp only <;> omega
  have hdst : s.Inside (x + i, y + j) := by
    refine ⟨?_, ?_, ?_, ?_⟩ <;> dsimp only <;> omega
  have htouch := clean_touch ((hsize.inside_iff _).mpr hsrc)
  refine htouch.trans (clean_write ?_ _)
  exact ((hsize.trans htouch.toGrows).inside_iff _).mpr hdst

theorem lfbScrollUp_grows (s : Lfb) (x y w h dy : Int) (fill : UInt32) :
    Grows s (lfbScrollUp s x y w h dy fill) := by
  rw [lfbScrollUp_eq]
  refine Grows.trans ?_ (lfbFill_clean ..).toGrows
  exact upTo_grows fun j t => upTo_grows fun i u =>
    copyPixel_grows x y dy j i u

/-- The pixels that one row of the copy touches. -/
theorem copyRow_touches (t : Lfb) (j n : Nat) :
    ∀ i < n, (x + i, y + j + dy) ∈ (upTo n (copyPixel x y dy j) t).log
      ∧ (x + i, y + j) ∈ (upTo n (copyPixel x y dy j) t).log := by
  refine upTo_inv (fun n (u : Lfb) => ∀ i < n,
    (x + (i : Int), y + j + dy) ∈ u.log ∧ (x + (i : Int), y + j) ∈ u.log)
    ?_ fun k _ u hu i hi => ?_
  · intro i hi
    exact absurd hi (Nat.not_lt_zero i)
  · have hlog := (copyPixel_grows x y dy j k u).log
    by_cases hik : i < k
    · exact ⟨hlog.subset (hu i hik).1, hlog.subset (hu i hik).2⟩
    · obtain rfl : i = k := by omega
      simp [copyPixel, Lfb.write, Lfb.touch]

/-- The pixels that the copy of `n` rows touches. -/
theorem copyRows_touches (t : Lfb) (n k : Nat) :
    ∀ j < n, ∀ i < k,
      (x + i, y + j + dy)
          ∈ (upTo n (fun s j => upTo k (copyPixel x y dy j) s) t).log
        ∧ (x + i, y + j)
          ∈ (upTo n (fun s j => upTo k (copyPixel x y dy j) s) t).log := by
  refine upTo_inv (fun n (u : Lfb) => ∀ j < n, ∀ i < k,
    (x + (i : Int), y + (j : Int) + dy) ∈ u.log
      ∧ (x + (i : Int), y + (j : Int)) ∈ u.log)
    ?_ fun m _ u hu j hj i hi => ?_
  · intro j hj
    exact absurd hj (Nat.not_lt_zero j)
  · have hgrows : Grows u (upTo k (copyPixel x y dy m) u) :=
      upTo_grows fun i t => copyPixel_grows x y dy m i t
    by_cases hjm : j < m
    · exact ⟨hgrows.log.subset (hu j hjm i hi).1,
        hgrows.log.subset (hu j hjm i hi).2⟩
    · obtain rfl : j = m := by omega
      exact copyRow_touches u j k i hi

/-- Every pixel of the region above its last `dy` rows is written, and the
one `dy` rows below it is read. -/
theorem lfbScrollUp_touches {i j : Nat} (hi : i < w.toNat)
    (hj : j < (h - dy).toNat) :
    (x + i, y + j + dy) ∈ (lfbScrollUp s x y w h dy fill).log
      ∧ (x + i, y + j) ∈ (lfbScrollUp s x y w h dy fill).log := by
  have hlog := (lfbFill_clean (copyRows s x y w h dy) x (y + h - dy) w dy
    fill).toGrows.log
  have hboth : (x + i, y + j + dy) ∈ (copyRows s x y w h dy).log
      ∧ (x + i, y + j) ∈ (copyRows s x y w h dy).log :=
    copyRows_touches s (h - dy).toNat w.toNat j hj i hi
  rw [lfbScrollUp_eq]
  exact ⟨hlog.subset hboth.1, hlog.subset hboth.2⟩

end Scroll

end Thuos.Video
