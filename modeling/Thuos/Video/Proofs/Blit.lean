/-
What is taken off the screen can be put back.

`lfb_blit_get` reads the pixels of a rectangle that are on the screen, and
changes none (`lfbBlitGet_spec`). `lfb_blit_put` writes the same pixels. So
it undoes whatever has been drawn in the rectangle since
(`lfbBlitPut_restores`), wherever the rectangle is and however much of it is
on the screen.
-/
import Thuos.Video.Blit
import Thuos.Video.Proofs.FillPixels

namespace Thuos.Video

open Loop

-- ================================================================ the pixels

/-- The test of `lfb_pixel` and the two copies. -/
def Lfb.Shown (s : Lfb) (col row : Int) : Prop :=
  unsigned col < unsigned s.W ∧ unsigned row < unsigned s.H

instance (s : Lfb) (col row : Int) : Decidable (s.Shown col row) :=
  inferInstanceAs (Decidable (_ ∧ _))

/-- The place of a pixel in memory. -/
def Lfb.place (s : Lfb) (col row : Int) : Int := row * s.pitchPx + col

/-- The framebuffer but for its log. -/
def Lfb.picture (s : Lfb) : Lfb := s.withLog []

/-- The log that is put into a framebuffer is the one that is read from it
afterwards. -/
@[simp] theorem Lfb.withLog_log (s : Lfb) (log : List (Int × Int)) :
    (s.withLog log).log = log := rfl

/-- Two framebuffers that show the same picture are the same once they are
given one log. -/
theorem Lfb.withLog_congr {s t : Lfb} (h : s.picture = t.picture)
    (log : List (Int × Int)) : s.withLog log = t.withLog log := by
  have hlog : s.picture.withLog log = t.picture.withLog log := by rw [h]
  exact hlog

/-- What a pixel does to the picture depends on the picture alone, and not on
the accesses before it. -/
theorem lfbPixel_picture {s t : Lfb} (h : s.picture = t.picture) (x y : Int)
    (rgb : UInt32) :
    (lfbPixel s x y rgb).picture = (lfbPixel t x y rgb).picture := by
  have hs : ∀ u : Lfb, (lfbPixel u x y rgb).picture
      = (lfbPixel u.picture x y rgb).picture := by
    intro u
    unfold lfbPixel
    by_cases hin : unsigned x < unsigned u.W ∧ unsigned y < unsigned u.H
    · have hin' : unsigned x < unsigned u.picture.W
          ∧ unsigned y < unsigned u.picture.H := hin
      rw [if_pos hin, if_pos hin']
      rfl
    · have hin' : ¬ (unsigned x < unsigned u.picture.W
          ∧ unsigned y < unsigned u.picture.H) := hin
      rw [if_neg hin, if_neg hin']
      rfl
  rw [hs s, hs t, h]

/-- The log has grown by pixels on the screen, and nothing else has
changed. -/
structure Read (s t : Lfb) : Prop where
  same : t = { s with log := t.log }
  log : ∃ l, t.log = s.log ++ l ∧ ∀ p ∈ l, s.Shown p.1 p.2

/-- Some words have changed, and the log has grown by pixels on the
screen. -/
structure Drawn (s t : Lfb) : Prop where
  same : t = { s with word := t.word, log := t.log }
  log : ∃ l, t.log = s.log ++ l ∧ ∀ p ∈ l, s.Shown p.1 p.2

section Compose

variable {s t u : Lfb}

/-- A run that reads nothing leaves the framebuffer as it was. -/
theorem Read.refl (s : Lfb) : Read s s :=
  ⟨rfl, [], (List.append_nil _).symm, by simp⟩

/-- A run that draws nothing leaves the framebuffer as it was. -/
theorem Drawn.refl (s : Lfb) : Drawn s s :=
  ⟨rfl, [], (List.append_nil _).symm, by simp⟩

/-- Reading is drawing that writes no word. -/
theorem Read.drawn (h : Read s t) : Drawn s t := by
  refine ⟨?_, h.log⟩
  rw [h.same]

/-- The width of the screen is that of before: nothing that draws changes it.
-/
theorem Drawn.W (h : Drawn s t) : t.W = s.W := by rw [h.same]

/-- The height of the screen is that of before: nothing that draws changes
it. -/
theorem Drawn.H (h : Drawn s t) : t.H = s.H := by rw [h.same]

/-- Nor do the rows move: drawing keeps the distance from one to the next. -/
theorem Drawn.pitch (h : Drawn s t) : t.pitchPx = s.pitchPx := by rw [h.same]

/-- Which pixels are on the screen is a matter of its size, so drawing does
not change it. -/
theorem Drawn.shown (h : Drawn s t) (col row : Int) :
    t.Shown col row ↔ s.Shown col row := by
  unfold Lfb.Shown
  rw [h.W, h.H]

/-- The word that holds a pixel is the same before and after drawing. -/
theorem Drawn.place (h : Drawn s t) (col row : Int) :
    t.place col row = s.place col row := by
  unfold Lfb.place
  rw [h.pitch]

/-- Reading leaves every word of the framebuffer as it was. -/
theorem Read.word (h : Read s t) : t.word = s.word := by rw [h.same]

/-- What is drawn in two runs, one after the other, is drawn in one. -/
theorem Drawn.trans (h : Drawn s t) (h' : Drawn t u) : Drawn s u := by
  refine ⟨?_, ?_⟩
  · rw [h'.same, h.same]
  · obtain ⟨l, hlog, hl⟩ := h.log
    obtain ⟨l', hlog', hl'⟩ := h'.log
    refine ⟨l ++ l', by rw [hlog', hlog, List.append_assoc], ?_⟩
    intro p hp
    cases List.mem_append.mp hp with
    | inl hp => exact hl p hp
    | inr hp => exact (h.shown _ _).mp (hl' p hp)

/-- After reading, the picture is the one that was there. -/
theorem Read.picture (h : Read s t) : t.picture = s.picture := by
  rw [h.same]
  rfl

/-- What was drawn is still drawn when the record of the accesses is put
back. -/
theorem Drawn.withLog (h : Drawn s t) : Drawn s (t.withLog s.log) := by
  refine ⟨?_, [], (List.append_nil _).symm, by simp⟩
  rw [h.same]
  rfl

/-- What has been drawn over, if the words are as before. -/
theorem Drawn.undone (h : Drawn s t) (hword : t.word = s.word) :
    t.withLog s.log = s := by
  rw [h.same, hword]
  rfl

/-- Two runs that only read are, one after the other, a run that only reads.
-/
theorem Read.trans (h : Read s t) (h' : Read t u) : Read s u := by
  refine ⟨?_, (h.drawn.trans h'.drawn).log⟩
  rw [h'.same, h.same]

/-- Looking at a pixel on the screen is reading: it adds to the log and to
nothing else. -/
theorem read_touch {col row : Int} (h : s.Shown col row) :
    Read s (s.touch col row) :=
  ⟨rfl, [(col, row)], rfl, fun p hp => by
    rw [List.mem_singleton.mp hp]
    exact h⟩

/-- A pixel that is on the screen gets the colour, and no other one does. -/
theorem lfbPixel_drawn (s : Lfb) (col row : Int) (rgb : UInt32) :
    Drawn s (lfbPixel s col row rgb)
      ∧ (lfbPixel s col row rgb).word
        = if s.Shown col row then
            Function.update s.word (s.place col row) rgb
          else s.word := by
  unfold lfbPixel
  by_cases hin : s.Shown col row
  · rw [if_pos hin]
    have hif : unsigned col < unsigned s.W ∧ unsigned row < unsigned s.H := hin
    rw [if_pos hif]
    exact ⟨⟨rfl, [(col, row)], rfl, fun p hp => by
      rw [List.mem_singleton.mp hp]
      exact hin⟩, rfl⟩
  · rw [if_neg hin]
    have hif : ¬ (unsigned col < unsigned s.W
      ∧ unsigned row < unsigned s.H) := hin
    rw [if_neg hif]
    exact ⟨Drawn.refl s, rfl⟩

end Compose

-- ================================================================ the copies

section Blit

variable (s : Lfb) (x y w h : Int) (buf : Nat → UInt32)

/-- What the buffer has for the pixel of index `k`. -/
def taken (k : Nat) : UInt32 :=
  if s.Shown (x + (k % w.toNat : Nat)) (y + (k / w.toNat : Nat)) then
    s.read (x + (k % w.toNat : Nat)) (y + (k / w.toNat : Nat))
  else 0

/-- `lfb_blit_get` only reads, and its buffer holds the pixels of the
rectangle row by row. -/
theorem lfbBlitGet_spec :
    Read s (lfbBlitGet s x y w h buf).1
      ∧ ∀ k < h.toNat * w.toNat,
        (lfbBlitGet s x y w h buf).2 k = taken s x y w k := by
  unfold lfbBlitGet
  dsimp only
  rw [upTo_nest h.toNat w.toNat fun (r : Lfb × (Nat → UInt32)) j i =>
    if unsigned (x + i) < unsigned r.1.W ∧ unsigned (y + j) < unsigned r.1.H
    then (r.1.touch (x + i) (y + j),
      Function.update r.2 (j * w.toNat + i) (r.1.read (x + i) (y + j)))
    else (r.1, Function.update r.2 (j * w.toNat + i) 0)]
  refine upTo_inv (fun n (r : Lfb × (Nat → UInt32)) => Read s r.1
    ∧ ∀ k < n, r.2 k = taken s x y w k) ⟨Read.refl s, ?_⟩
    fun n hn r hr => ?_
  · intro k hk
    exact absurd hk (Nat.not_lt_zero k)
  · obtain ⟨hread, hbuf⟩ := hr
    have hindex : n / w.toNat * w.toNat + n % w.toNat = n := by
      rw [Nat.mul_comm]
      exact Nat.div_add_mod n w.toNat
    rw [hindex]
    have hmore : ∀ v, v = taken s x y w n → ∀ k < n + 1,
        Function.update r.2 n v k = taken s x y w k := by
      intro v hv k hk
      by_cases hkn : k = n
      · rw [hkn, Function.update_self, hv]
      · rw [Function.update_of_ne hkn]
        exact hbuf k (by omega)
    by_cases hin : s.Shown (x + (n % w.toNat : Nat)) (y + (n / w.toNat : Nat))
    · have hif : unsigned (x + (n % w.toNat : Nat)) < unsigned r.1.W
          ∧ unsigned (y + (n / w.toNat : Nat)) < unsigned r.1.H :=
        (hread.drawn.shown _ _).mpr hin
      rw [if_pos hif]
      refine ⟨hread.trans (read_touch hif), hmore _ ?_⟩
      unfold taken
      rw [if_pos hin]
      show r.1.word _ = s.word _
      rw [hread.word, hread.drawn.pitch]
    · have hif : ¬ (unsigned (x + (n % w.toNat : Nat)) < unsigned r.1.W
          ∧ unsigned (y + (n / w.toNat : Nat)) < unsigned r.1.H) :=
        mt (hread.drawn.shown _ _).mp hin
      rw [if_neg hif]
      refine ⟨hread, hmore _ ?_⟩
      unfold taken
      rw [if_neg hin]

/-- Nothing but pixels of the rectangle has changed. -/
def Confined (t : Lfb) : Prop :=
  ∀ p, (∀ k < h.toNat * w.toNat,
      s.Shown (x + (k % w.toNat : Nat)) (y + (k / w.toNat : Nat)) →
      p ≠ s.place (x + (k % w.toNat : Nat)) (y + (k / w.toNat : Nat))) →
    t.word p = s.word p

/-- Where the writes of a run went does not depend on the log that the
framebuffer carries. -/
theorem Confined.withLog {t : Lfb} (hconfined : Confined s x y w h t)
    (log : List (Int × Int)) : Confined s x y w h (t.withLog log) := hconfined

/-- The pixels that were taken are put back. -/
theorem lfbBlitPut_restores {t : Lfb} (hd : Drawn s t)
    (hconfined : Confined s x y w h t)
    (hbuf : ∀ k < h.toNat * w.toNat, buf k = taken s x y w k) :
    Drawn s (lfbBlitPut t x y w h buf)
      ∧ (lfbBlitPut t x y w h buf).word = s.word := by
  unfold lfbBlitPut
  rw [upTo_nest h.toNat w.toNat fun t j i =>
    lfbPixel t (x + i) (y + j) (buf (j * w.toNat + i))]
  -- what is still to be put back lies ahead
  have hrun := @upTo_inv _ (fun u k => lfbPixel u (x + (k % w.toNat : Nat))
      (y + (k / w.toNat : Nat))
      (buf (k / w.toNat * w.toNat + k % w.toNat))) t
    (fun n u => Drawn s u ∧ ∀ p,
      (∀ k, n ≤ k → k < h.toNat * w.toNat →
        s.Shown (x + (k % w.toNat : Nat)) (y + (k / w.toNat : Nat)) →
        p ≠ s.place (x + (k % w.toNat : Nat)) (y + (k / w.toNat : Nat))) →
      u.word p = s.word p)
    (h.toNat * w.toNat)
    ⟨hd, fun p hp => hconfined p fun k hk => hp k (Nat.zero_le k) hk⟩
    (fun n hn u hu => ?_)
  · obtain ⟨hdrawn, hwords⟩ := hrun
    refine ⟨hdrawn, funext fun p => hwords p fun k hk hk' => ?_⟩
    omega
  · obtain ⟨hdrawn, hwords⟩ := hu
    obtain ⟨hpixel, hword⟩ := lfbPixel_drawn u (x + (n % w.toNat : Nat))
      (y + (n / w.toNat : Nat)) (buf (n / w.toNat * w.toNat + n % w.toNat))
    refine ⟨hdrawn.trans hpixel, fun p hp => ?_⟩
    have hindex : n / w.toNat * w.toNat + n % w.toNat = n := by
      rw [Nat.mul_comm]
      exact Nat.div_add_mod n w.toNat
    rw [hword, hindex, hbuf n hn]
    unfold taken
    by_cases hin : s.Shown (x + (n % w.toNat : Nat)) (y + (n / w.toNat : Nat))
    · rw [if_pos ((hdrawn.shown _ _).mpr hin), if_pos hin, hdrawn.place]
      by_cases hplace : p = s.place (x + (n % w.toNat : Nat))
          (y + (n / w.toNat : Nat))
      · rw [hplace, Function.update_self]
        rfl
      · rw [Function.update_of_ne hplace]
        refine hwords p fun k hk hk' hshown => ?_
        by_cases hkn : k = n
        · rw [hkn]
          exact hplace
        · exact hp k (by omega) hk' hshown
    · rw [if_neg (mt (hdrawn.shown _ _).mp hin)]
      refine hwords p fun k hk hk' hshown => ?_
      by_cases hkn : k = n
      · rw [hkn] at hshown
        exact absurd hshown hin
      · exact hp k (by omega) hk' hshown

end Blit

end Thuos.Video
