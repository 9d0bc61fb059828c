/-
Drawing inside a region.

`Within R s t` says that `t` comes from `s` by writing to pixels of `R`
only: the log has grown by such pixels, and every word that is the place of
none of them is as it was, whatever the pitch. A loop of such steps is one
(`upTo_within`). Where the region does not reach past the end of the rows,
all that is outside of it keeps its colour (`Within.read`).
-/
import Thuos.Video.Proofs.Pixels

namespace Thuos.Video

open Loop

/-- The part of the rectangle that is on the screen. -/
def Seen (s : Lfb) (x y w h col row : Int) : Prop :=
  InRect x y w h col row ∧ s.Inside (col, row)

instance (s : Lfb) (x y w h col row : Int) :
    Decidable (Seen s x y w h col row) :=
  inferInstanceAs (Decidable (_ ∧ _))

-- ============================================================== composition

/-- `t` is `s` after writes to pixels of the region. -/
structure Within (R : Int → Int → Prop) (s t : Lfb) : Prop where
  W : t.W = s.W
  H : t.H = s.H
  pitch : t.pitchPx = s.pitchPx
  log : ∃ l, t.log = s.log ++ l ∧ ∀ p ∈ l, R p.1 p.2
  words : ∀ i, (∀ col row, R col row → i ≠ row * s.pitchPx + col) →
    t.word i = s.word i

section Compose

variable {R R' : Int → Int → Prop} {s t u : Lfb}

theorem Within.refl (R : Int → Int → Prop) (s : Lfb) : Within R s s :=
  ⟨rfl, rfl, rfl, ⟨[], (List.append_nil _).symm, by simp⟩, fun _ _ => rfl⟩

theorem Within.trans (h : Within R s t) (h' : Within R t u) :
    Within R s u := by
  obtain ⟨l, hlog, hl⟩ := h.log
  obtain ⟨l', hlog', hl'⟩ := h'.log
  refine ⟨h'.W.trans h.W, h'.H.trans h.H, h'.pitch.trans h.pitch,
    ⟨l ++ l', ?_, ?_⟩, ?_⟩
  · rw [hlog', hlog, List.append_assoc]
  · intro p hp
    cases List.mem_append.mp hp with
    | inl hp => exact hl p hp
    | inr hp => exact hl' p hp
  · intro i hi
    rw [h'.words i (h.pitch.symm ▸ hi)]
    exact h.words i hi

/-- The same in a larger region. -/
theorem Within.mono (h : Within R s t)
    (hR : ∀ col row, R col row → R' col row) : Within R' s t := by
  obtain ⟨l, hlog, hl⟩ := h.log
  refine ⟨h.W, h.H, h.pitch, ⟨l, hlog, fun p hp => hR _ _ (hl p hp)⟩, ?_⟩
  exact fun i hi => h.words i fun col row hin => hi col row (hR _ _ hin)

theorem write_within {col row : Int} (h : R col row) (rgb : UInt32) :
    Within R s (s.write col row rgb) := by
  refine ⟨rfl, rfl, rfl, ⟨[(col, row)], rfl, ?_⟩, ?_⟩
  · intro p hp
    rw [List.mem_singleton.mp hp]
    exact h
  · intro i hi
    exact Function.update_of_ne (hi col row h) ..

/-- A loop whose turns stay in the region. -/
theorem upTo_within {body : Lfb → Nat → Lfb} {n : Nat}
    (hbody : ∀ i < n, ∀ t, Within R s t → Within R t (body t i)) :
    Within R s (upTo n body s) :=
  upTo_inv (fun _ t => Within R s t) (Within.refl R s)
    fun i hi t ht => ht.trans (hbody i hi t ht)

/-- A word of the rows that is not in the region, if the region does not
reach past their end. -/
theorem Within.read (h : Within R s t)
    (hR : ∀ col row, R col row → 0 ≤ col ∧ col < s.pitchPx) {col row : Int}
    (hlow : 0 ≤ col) (hhigh : col < s.pitchPx) (hout : ¬ R col row) :
    t.read col row = s.read col row := by
  unfold Lfb.read
  rw [h.pitch]
  refine h.words _ fun col' row' hin hplace => hout ?_
  obtain ⟨hlow', hhigh'⟩ := hR col' row' hin
  obtain ⟨rfl, rfl⟩ := place_inj hlow' hhigh' hlow hhigh hplace
  exact hin

/-- The screen is the same afterwards. -/
theorem Within.seen (h : Within R s t) (x y w h' col row : Int) :
    Seen t x y w h' col row ↔ Seen s x y w h' col row := by
  unfold Seen Lfb.Inside
  rw [h.W, h.H]

end Compose

end Thuos.Video
