/-
What is drawn does not depend on what was there.

Two framebuffers of one size may hold different pictures. Drawing the same
into both keeps every pixel that they share (`Overlays`): it holds of writing
a pixel, of one drawing after another and of loops, and so of all that
kernel/drivers/lfb.c draws out of them. A fill makes the pixels that it
covers alike (`lfbFill_alike`), and a gradient over the screen all of them.
-/
import Thuos.Video.Blit
import Thuos.Video.Proofs.FillPixels

namespace Thuos.Video

open Loop

/-- Two framebuffers of one size. -/
structure SameSize (s t : Lfb) : Prop where
  W : t.W = s.W
  H : t.H = s.H
  pitch : t.pitchPx = s.pitchPx

/-- Two framebuffers of one size, alike in one word. -/
structure Alike (p : Int) (s t : Lfb) : Prop extends SameSize s t where
  word : t.word p = s.word p

/-- A drawing that does not look at the picture. -/
structure Overlays (f : Lfb → Lfb) : Prop where
  size : ∀ s, SameSize s (f s)
  alike : ∀ p s t, Alike p s t → Alike p (f s) (f t)

-- ============================================================== composition

section Compose

variable {f g : Lfb → Lfb}

/-- Every framebuffer has its own size. -/
theorem SameSize.refl (s : Lfb) : SameSize s s := ⟨rfl, rfl, rfl⟩

/-- Sizes that agree one by one agree from the first framebuffer to the last.
-/
theorem SameSize.trans {s t u : Lfb} (h : SameSize s t) (h' : SameSize t u) :
    SameSize s u :=
  ⟨h'.W.trans h.W, h'.H.trans h.H, h'.pitch.trans h.pitch⟩

/-- To draw nothing puts nothing over the picture, and depends on none of it.
-/
theorem Overlays.id : Overlays fun s => s :=
  ⟨SameSize.refl, fun _ _ _ h => h⟩

/-- Two drawings that each overlay what is there, one after the other,
overlay it too. -/
theorem Overlays.comp (hf : Overlays f) (hg : Overlays g) :
    Overlays fun s => g (f s) :=
  ⟨fun s => (hf.size s).trans (hg.size _),
    fun p s t h => hg.alike p _ _ (hf.alike p s t h)⟩

/-- A loop overlays the picture if every one of its turns does. -/
theorem Overlays.upTo {n : Nat} {body : Lfb → Nat → Lfb}
    (h : ∀ i < n, Overlays fun s => body s i) : Overlays (upTo n body) :=
  ⟨fun s => upTo_inv (fun _ t => SameSize s t) (SameSize.refl s)
      fun i hi t ht => ht.trans ((h i hi).size t),
    fun p _ _ hst =>
      upTo_sim (Alike p) hst fun i hi s t => (h i hi).alike p s t⟩

/-- Whichever branch is taken, what it draws overlays the picture. -/
theorem Overlays.ite {c : Prop} [Decidable c] (hf : Overlays f)
    (hg : Overlays g) :
    Overlays fun s => if c then f s else g s := by
  by_cases hc : c
  · simp only [if_pos hc]
    exact hf
  · simp only [if_neg hc]
    exact hg

/-- One word that is written hides what was in it, and no other. -/
theorem write_overlays (col row : Int) (rgb : UInt32) :
    Overlays fun s => s.write col row rgb := by
  refine ⟨fun s => ⟨rfl, rfl, rfl⟩, fun p s t h =>
    ⟨⟨h.W, h.H, h.pitch⟩, ?_⟩⟩
  show Function.update t.word (row * t.pitchPx + col) rgb p
    = Function.update s.word (row * s.pitchPx + col) rgb p
  rw [h.pitch]
  by_cases hp : p = row * s.pitchPx + col
  · rw [hp, Function.update_self, Function.update_self]
  · rw [Function.update_of_ne hp, Function.update_of_ne hp]
    exact h.word

end Compose

-- ============================================================= the drawings

section Drawings

variable (x y w h r : Int) (rgb : UInt32)

/-- `lfb_pixel` writes one word or none, and which does not depend on the
picture. -/
theorem lfbPixel_overlays : Overlays fun s => lfbPixel s x y rgb := by
  refine ⟨fun s => ?_, fun p s t hst => ?_⟩
  · show SameSize s (lfbPixel s x y rgb)
    unfold lfbPixel
    split
    · exact (write_overlays x y rgb).size s
    · exact SameSize.refl s
  · show Alike p (lfbPixel s x y rgb) (lfbPixel t x y rgb)
    unfold lfbPixel
    rw [hst.W, hst.H]
    split
    · exact (write_overlays x y rgb).alike p s t hst
    · exact hst

/-- `lfb_fill` writes the same words over every picture of this size. -/
theorem lfbFill_overlays : Overlays fun s => lfbFill s x y w h rgb := by
  refine ⟨fun s => ?_, fun p s t hst => ?_⟩
  · have hwithin := lfbFill_within s x y w h rgb
    exact ⟨hwithin.W, hwithin.H, hwithin.pitch⟩
  simp only [lfbFill_eq]
  rw [hst.W, hst.H]
  have hloops := Overlays.upTo fun j (_ : j < (clip y h s.H).2.toNat) =>
    Overlays.upTo fun i (_ : i < (clip x w s.W).2.toNat) =>
      write_overlays ((clip x w s.W).1 + i) ((clip y h s.H).1 + j) rgb
  exact hloops.alike p s t hst

/-- `lfb_round_fill` is made of fills, so it overlays whatever it is drawn
on. -/
theorem lfbRoundFill_overlays :
    Overlays fun s => lfbRoundFill s x y w h r rgb :=
  Overlays.upTo fun _ _ => lfbFill_overlays ..

/-- `lfb_disc` is a fill for each of its rows, and overlays as they do. -/
theorem lfbDisc_overlays : Overlays fun s => lfbDisc s x y r rgb :=
  Overlays.upTo fun _ _ => lfbFill_overlays ..

/-- `lfb_char` looks at the glyph and not at the picture when it chooses its
pixels. -/
theorem lfbChar_overlays (glyph : UInt8 → Nat → UInt8) (ch : Int8) (bg : Int)
    (scale : Int) : Overlays fun s => lfbChar glyph s x y ch rgb bg scale := by
  refine Overlays.upTo fun _ _ => Overlays.upTo fun _ _ => ?_
  refine Overlays.ite (lfbFill_overlays ..) ?_
  exact Overlays.ite (lfbFill_overlays ..) Overlays.id

/-- `lfb_text` is one character after another, and overlays as each of them
does. -/
theorem lfbText_overlays (glyph : UInt8 → Nat → UInt8) (str : CStr)
    (bg scale : Int) :
    Overlays fun s => lfbText glyph s x y str rgb bg scale := by
  unfold lfbText
  generalize str.chars = cs
  induction cs generalizing x with
  | nil => exact Overlays.id
  | cons c cs ih =>
      exact (lfbChar_overlays x y rgb glyph c.toInt8 bg scale).comp
        (ih (x + 8 * scale))

/-- `lfb_gradient_v` fills its rows with colours that the picture has no part
in. -/
theorem lfbGradientV_overlays (top bot : UInt32) :
    Overlays fun s => lfbGradientV s x y w h top bot :=
  Overlays.upTo fun _ _ => lfbFill_overlays ..

section After

variable {x y w h r rgb} {f : Lfb → Lfb}

/-- A fill on top of what overlays the picture overlays it. -/
theorem Overlays.fill (hf : Overlays f) :
    Overlays fun s => lfbFill (f s) x y w h rgb :=
  hf.comp (lfbFill_overlays ..)

/-- So does a rounded rectangle on top of it. -/
theorem Overlays.roundFill (hf : Overlays f) :
    Overlays fun s => lfbRoundFill (f s) x y w h r rgb :=
  hf.comp (lfbRoundFill_overlays ..)

/-- So does a disc on top of it. -/
theorem Overlays.disc (hf : Overlays f) :
    Overlays fun s => lfbDisc (f s) x y r rgb :=
  hf.comp (lfbDisc_overlays ..)

/-- So does a text on top of it, in any font. -/
theorem Overlays.text {glyph : UInt8 → Nat → UInt8} {str : CStr}
    {bg scale : Int} (hf : Overlays f) :
    Overlays fun s => lfbText glyph (f s) x y str rgb bg scale :=
  hf.comp (lfbText_overlays ..)

end After

/-- The loop of `lfb_line`, as often as it goes around, leaves the size of
the screen alone. -/
theorem lineLoop_size (v : LineVars) :
    ∀ (fuel : Nat) (s : Lfb) (u : LineTurn) (r : Lfb × List LineTurn),
      lineLoop v rgb fuel s u = some r → SameSize s r.1 := by
  intro fuel
  induction fuel with
  | zero =>
      intro s u r hr
      cases hr
  | succ fuel ih =>
      intro s u r hr
      have hpixel := (lfbPixel_overlays u.x0 u.y0 rgb).size s
      unfold lineLoop at hr
      dsimp only at hr
      split at hr
      · cases hr
        exact hpixel
      · obtain ⟨q, hq, rfl⟩ := Option.map_eq_some_iff.mp hr
        exact hpixel.trans (ih _ _ q hq)

/-- Two lines take the same turns. -/
theorem lineLoop_alike (v : LineVars) {p : Int} :
    ∀ (fuel : Nat) (s t : Lfb) (u : LineTurn), Alike p s t →
      (lineLoop v rgb fuel s u = none ∧ lineLoop v rgb fuel t u = none)
        ∨ ∃ a b, lineLoop v rgb fuel s u = some a
          ∧ lineLoop v rgb fuel t u = some b ∧ Alike p a.1 b.1 := by
  intro fuel
  induction fuel with
  | zero => exact fun _ _ _ _ => Or.inl ⟨rfl, rfl⟩
  | succ fuel ih =>
      intro s t u hst
      have hpixel := (lfbPixel_overlays u.x0 u.y0 rgb).alike p s t hst
      unfold lineLoop
      dsimp only
      split
      · exact Or.inr ⟨_, _, rfl, rfl, hpixel⟩
      · rcases ih _ _ (lineMove v u) hpixel with ⟨hs, ht⟩ | ⟨a, b, hs, ht, h⟩
        · refine Or.inl ⟨?_, ?_⟩
          · rw [hs]
            rfl
          · rw [ht]
            rfl
        · refine Or.inr ⟨(a.1, u :: a.2), (b.1, u :: b.2), ?_, ?_, h⟩
          · rw [hs]
            rfl
          · rw [ht]
            rfl

end Drawings

-- ============================================================ what is covered

section Covered

variable {s t : Lfb} {x y w h : Int}

/-- A fill makes the pixels that it covers alike. -/
theorem lfbFill_alike (rgb : UInt32) {col row : Int} (hW : t.W = s.W)
    (hH : t.H = s.H) (hpitch : t.pitchPx = s.pitchPx)
    (hin : Seen s x y w h col row) :
    Alike (row * s.pitchPx + col) (lfbFill s x y w h rgb)
      (lfbFill t x y w h rgb) := by
  have hs := lfbFill_within s x y w h rgb
  have ht := lfbFill_within t x y w h rgb
  have hin' : Seen t x y w h col row := by
    unfold Seen Lfb.Inside at hin ⊢
    rw [hW, hH]
    exact hin
  have hsword : (lfbFill s x y w h rgb).word
      (row * (lfbFill s x y w h rgb).pitchPx + col) = rgb :=
    (lfbFill_inks s x y w h rgb).2 col row hin
  have htword : (lfbFill t x y w h rgb).word
      (row * (lfbFill t x y w h rgb).pitchPx + col) = rgb :=
    (lfbFill_inks t x y w h rgb).2 col row hin'
  rw [hs.pitch] at hsword
  rw [ht.pitch, hpitch] at htword
  exact ⟨⟨(ht.W.trans hW).trans hs.W.symm, (ht.H.trans hH).trans hs.H.symm,
    (ht.pitch.trans hpitch).trans hs.pitch.symm⟩, htword.trans hsword.symm⟩

/-- A loop that fills row after row changes words of the framebuffer and not
its size. -/
theorem gradientLoop_within (s : Lfb) (x y w : Int) (n : Nat)
    (colour : Nat → UInt32) :
    Within (fun _ _ => True) s
      (upTo n (fun s (j : Nat) => lfbFill s x (y + j) w 1 (colour j)) s) :=
  upTo_within fun j _ t _ =>
    (lfbFill_within t x (y + j) w 1 (colour j)).mono fun _ _ _ => trivial

/-- A gradient over the screen makes all its pixels alike. -/
theorem gradient_alike (top bot : UInt32) {col row : Int} (hW : t.W = s.W)
    (hH : t.H = s.H) (hpitch : t.pitchPx = s.pitchPx)
    (hin : s.Inside (col, row)) :
    Alike (row * s.pitchPx + col) (lfbGradientV s 0 0 s.W s.H top bot)
      (lfbGradientV t 0 0 s.W s.H top bot) := by
  obtain ⟨hcol, hcol', hrow, hrow'⟩ := hin
  dsimp only at hcol hcol' hrow hrow'
  obtain ⟨r, rfl⟩ := Int.eq_ofNat_of_zero_le hrow
  unfold lfbGradientV
  -- the rows above this one, this one, and the others
  have hrows : s.H.toNat = r + 1 + (s.H.toNat - (r + 1)) := by omega
  rw [hrows, upTo_add (r + 1), upTo_add (r + 1), upTo_succ, upTo_succ]
  have hs := gradientLoop_within s 0 0 s.W r fun j =>
    lerp top bot j (if s.H > 1 then s.H - 1 else 1)
  have ht := gradientLoop_within t 0 0 s.W r fun j =>
    lerp top bot j (if s.H > 1 then s.H - 1 else 1)
  have hseen : Seen s 0 (0 + r) s.W 1 col r := by
    refine ⟨⟨hcol, ?_, ?_, ?_⟩, hcol, hcol', hrow, hrow'⟩
    · omega
    · omega
    · omega
  have hfill := lfbFill_alike (lerp top bot r (if s.H > 1 then s.H - 1 else 1))
    (ht.W.trans (hW.trans hs.W.symm)) (ht.H.trans (hH.trans hs.H.symm))
    (ht.pitch.trans (hpitch.trans hs.pitch.symm)) ((hs.seen ..).mpr hseen)
  rw [hs.pitch] at hfill
  exact (Overlays.upTo fun _ _ => lfbFill_overlays ..).alike _ _ _ hfill

end Covered

end Thuos.Video
