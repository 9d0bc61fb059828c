/-
Drawings that repaint a region.

A drawing repaints a region if it makes every pixel of it that is on the
screen, whatever was there, and writes nothing else (`Repaints`). Of two such
drawings of one region only the last one is seen (`Repaints.last`), and two
of regions that do not meet may change places (`Repaints.comm`).
-/
import Thuos.Video.Proofs.Repaint
import Thuos.Video.Proofs.Shapes

namespace Thuos.Video

open Loop

/-- The part of a region that is on the screen. -/
def OnScreenOf (G : Int → Int → Prop) (s : Lfb) (col row : Int) : Prop :=
  G col row ∧ s.Inside (col, row)

/-- A drawing that makes the part of a region that is on the screen. -/
structure Repaints (G : Int → Int → Prop) (f : Lfb → Lfb) : Prop where
  overlays : Overlays f
  within : ∀ s, Within (OnScreenOf G s) s (f s)
  alike : ∀ s t, SameSize s t → ∀ col row, OnScreenOf G s col row →
    Alike (row * s.pitchPx + col) (f s) (f t)

/-- Two framebuffers of one size with the same words. -/
structure SamePicture (s t : Lfb) : Prop extends SameSize s t where
  word : t.word = s.word

-- ============================================================ one picture

section Picture

variable {s t u : Lfb}

theorem SameSize.symm (h : SameSize s t) : SameSize t s :=
  ⟨h.W.symm, h.H.symm, h.pitch.symm⟩

theorem SamePicture.symm (h : SamePicture s t) : SamePicture t s :=
  ⟨h.toSameSize.symm, h.word.symm⟩

theorem SamePicture.trans (h : SamePicture s t) (h' : SamePicture t u) :
    SamePicture s u :=
  ⟨h.toSameSize.trans h'.toSameSize, h'.word.trans h.word⟩

/-- The same drawing over the same picture. -/
theorem Overlays.same {f : Lfb → Lfb} (hf : Overlays f)
    (h : SamePicture s t) : SamePicture (f s) (f t) := by
  have halike : ∀ p, Alike p (f s) (f t) := fun p =>
    hf.alike p s t ⟨h.toSameSize, congrFun h.word p⟩
  exact ⟨(halike 0).toSameSize, funext fun p => (halike p).word⟩

theorem SameSize.onScreenOf (h : SameSize s t) (G : Int → Int → Prop)
    (col row : Int) : OnScreenOf G t col row ↔ OnScreenOf G s col row := by
  unfold OnScreenOf Lfb.Inside
  rw [h.W, h.H]

end Picture

-- ================================================================ regions

section Repaints

variable {G G' : Int → Int → Prop} {f g : Lfb → Lfb}

theorem Repaints.fill (x y w h : Int) (rgb : UInt32) :
    Repaints (InRect x y w h) fun s => lfbFill s x y w h rgb where
  overlays := lfbFill_overlays x y w h rgb
  within s := lfbFill_within s x y w h rgb
  alike _ _ hst _ _ hin := lfbFill_alike rgb hst.W hst.H hst.pitch hin

/-- What is drawn inside afterwards. -/
theorem Repaints.andThen (hf : Repaints G f) (hg : Overlays g)
    (hin : ∀ s, Within (OnScreenOf G s) s (g s)) :
    Repaints G fun s => g (f s) where
  overlays := hf.overlays.comp hg
  within s := by
    refine (hf.within s).trans ((hin (f s)).mono fun col row h => ?_)
    exact ((hf.overlays.size s).onScreenOf G col row).mp h
  alike s t hst col row h := hg.alike _ _ _ (hf.alike s t hst col row h)

/-- A loop repaints what its turns do. -/
theorem Repaints.upTo {n : Nat} {G : Nat → Int → Int → Prop}
    {body : Lfb → Nat → Lfb} (h : ∀ i < n, Repaints (G i) fun s => body s i) :
    Repaints (fun col row => ∃ i < n, G i col row) (upTo n body) where
  overlays := Overlays.upTo fun i hi => (h i hi).overlays
  within s := by
    refine upTo_within fun i hi t ht => ?_
    refine ((h i hi).within t).mono fun col row hin => ?_
    have hsize : SameSize s t := ⟨ht.W, ht.H, ht.pitch⟩
    obtain ⟨hG, hinside⟩ := (hsize.onScreenOf (G i) col row).mp hin
    exact ⟨⟨i, hi, hG⟩, hinside⟩
  alike s t hst col row hin := by
    obtain ⟨⟨i, hi, hG⟩, hinside⟩ := hin
    induction n with
    | zero => exact absurd hi (Nat.not_lt_zero i)
    | succ n ih =>
        have hover := Overlays.upTo fun k (hk : k < n) =>
          (h k (Nat.lt_succ_of_lt hk)).overlays
        rw [upTo_succ, upTo_succ]
        by_cases hlast : i = n
        · -- the last turn makes the pixel
          subst hlast
          have hs := hover.size s
          have ht := hover.size t
          have hsize : SameSize (Loop.upTo i body s) (Loop.upTo i body t) :=
            (hs.symm.trans hst).trans ht
          have halike := (h i hi).alike _ _ hsize col row
            ((hs.onScreenOf (G i) col row).mpr ⟨hG, hinside⟩)
          rw [hs.pitch] at halike
          exact halike
        · have hrest := ih (fun k hk => h k (Nat.lt_succ_of_lt hk))
            (by omega)
          exact (h n (Nat.lt_succ_self n)).overlays.alike _ _ _ hrest

/-- The words outside of the region. -/
theorem Repaints.outside (hf : Repaints G f) {s : Lfb} {p : Int}
    (hp : ¬ ∃ col row, OnScreenOf G s col row ∧ p = row * s.pitchPx + col) :
    Alike p s (f s) :=
  ⟨hf.overlays.size s, (hf.within s).words p fun col row hin heq =>
    hp ⟨col, row, hin, heq⟩⟩

/-- Only the last drawing of a region is seen. -/
theorem Repaints.last (hf : Repaints G f) (hg : Repaints G g) (s : Lfb) :
    SamePicture (f s) (f (g s)) := by
  have hsize := hg.overlays.size s
  have halike : ∀ p, Alike p (f s) (f (g s)) := by
    intro p
    by_cases hp : ∃ col row, OnScreenOf G s col row
        ∧ p = row * s.pitchPx + col
    · obtain ⟨col, row, hin, rfl⟩ := hp
      exact hf.alike s (g s) hsize col row hin
    · exact hf.overlays.alike p _ _ (hg.outside hp)
  exact ⟨(halike 0).toSameSize, funext fun p => (halike p).word⟩

/-- Drawings of regions that do not meet may change places, if the rows do
not overlap. -/
theorem Repaints.comm (hf : Repaints G f) (hg : Repaints G' g) {s : Lfb}
    (hpitch : s.W ≤ s.pitchPx)
    (hapart : ∀ col row, G col row → ¬ G' col row) :
    SamePicture (f (g s)) (g (f s)) := by
  have hsf := hf.overlays.size s
  have hsg := hg.overlays.size s
  have hfg := hf.overlays.size (g s)
  have hgf := hg.overlays.size (f s)
  have hsize : SameSize (f (g s)) (g (f s)) :=
    (hsg.trans hfg).symm.trans (hsf.trans hgf)
  refine ⟨hsize, funext fun p => ?_⟩
  by_cases hp : ∃ col row, OnScreenOf G' s col row
      ∧ p = row * s.pitchPx + col
  · -- `f` does not get there
    have hout : ¬ ∃ col row, OnScreenOf G s col row
        ∧ p = row * s.pitchPx + col := by
      rintro ⟨col', row', ⟨hG, h0', hW', -, -⟩, rfl⟩
      obtain ⟨col, row, ⟨hG', h0, hW, -, -⟩, heq⟩ := hp
      dsimp only at h0 hW h0' hW'
      have hlow : col < s.pitchPx := by omega
      have hlow' : col' < s.pitchPx := by omega
      obtain ⟨rfl, rfl⟩ := place_inj h0' hlow' h0 hlow heq.symm
      exact hapart _ _ hG hG'
    have hout' : ¬ ∃ col row, OnScreenOf G (g s) col row
        ∧ p = row * (g s).pitchPx + col := by
      rintro ⟨col, row, hin, heq⟩
      rw [hsg.pitch] at heq
      exact hout ⟨col, row, (hsg.onScreenOf G col row).mp hin, heq⟩
    rw [(hg.overlays.alike p _ _ (hf.outside hout)).word]
    exact (hf.outside hout').word.symm
  · have hp' : ¬ ∃ col row, OnScreenOf G' (f s) col row
        ∧ p = row * (f s).pitchPx + col := by
      rintro ⟨col, row, hin, heq⟩
      rw [hsf.pitch] at heq
      exact hp ⟨col, row, (hsf.onScreenOf G' col row).mp hin, heq⟩
    rw [(hg.outside hp').word]
    exact (hf.overlays.alike p _ _ (hg.outside hp)).word.symm

end Repaints

end Thuos.Video
