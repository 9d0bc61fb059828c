/-
Which screens `lfb_clear` clears.

A fill of the whole screen writes the colour at the place of every visible
pixel, whatever the pitch (`lfbFill_inks`). `lfb_clear` writes it to the
first `W * H` words in a row, so a pixel is cleared exactly when its place
is one of those, and all are exactly when the last one is
(`covers_iff`). The rows lie `pitch_px` words apart. So where they are
longer than the screen is wide, and there are two or more, the last pixels
keep what they held; and where the product of width and height is no
`int`, it is no bound at all.
-/
import Thuos.Video.Proofs.FillPixels
import Thuos.Video.Proofs.LfbMapped

namespace Thuos.Video

open Loop Mm Word32

-- ========================================================== what is stated

/-- Every visible pixel holds the colour after `lfb_clear`, as it would
after a fill of the whole screen. -/
def Cleared (s : Lfb) (c : UInt32) : Prop :=
  (∀ x y, s.Inside (x, y) → (lfbClear s c).read x y = c)
    ∧ ∀ x y, s.Inside (x, y) →
      (lfbClear s c).read x y = (lfbFill s 0 0 s.W s.H c).read x y

/-- The screens that are cleared: no pixel at all; or rows no wider than
the pitch, one of them or all as long as the screen is wide, and fewer
than 2^31 pixels; or rows wider than the pitch, whose last place is below
the product of width and height as a 32-bit `int`. -/
def ClearFits (W H pitchPx : Int) : Prop :=
  W ≤ 0 ∨ H ≤ 0 ∨
    if W ≤ pitchPx then (H = 1 ∨ pitchPx = W) ∧ W * H < 2 ^ 31
    else (H - 1) * pitchPx + W ≤ (W * H).bmod (2 ^ 32)

instance (W H pitchPx : Int) : Decidable (ClearFits W H pitchPx) := by
  unfold ClearFits
  infer_instance

-- ================================================================ the fill

/-- After a fill of the whole screen every visible pixel has the colour. -/
theorem lfbFill_all (s : Lfb) (c : UInt32) {x y : Int}
    (hin : s.Inside (x, y)) : (lfbFill s 0 0 s.W s.H c).read x y = c := by
  obtain ⟨hx, hxW, hy, hyH⟩ := hin
  dsimp only at hx hxW hy hyH
  apply (lfbFill_inks s 0 0 s.W s.H c).2
  refine ⟨⟨hx, ?_, hy, ?_⟩, hx, hxW, hy, hyH⟩
  · omega
  · omega

-- =============================================================== the clear

section Clear

variable {s : Lfb} {c : UInt32}

theorem lfbClear_word (s : Lfb) (c : UInt32) (i : Int) :
    (lfbClear s c).word i
      = if 0 ≤ i ∧ i < s.area then c else s.word i := by
  have hloop : (lfbClear s c).word i
      = if 0 ≤ i ∧ i < (s.area.toNat : Nat) then c else s.word i := by
    unfold lfbClear
    refine upTo_inv (fun n (t : Lfb) =>
      t.word i = if 0 ≤ i ∧ i < (n : Nat) then c else s.word i) ?_
      fun n hn t ht => ?_
    · rw [if_neg (by omega)]
    · by_cases hi : i = (n : Int)
      · rw [if_pos (by omega), hi]
        exact Function.update_self ..
      · refine (Function.update_of_ne hi ..).trans (ht.trans ?_)
        by_cases hin : 0 ≤ i ∧ i < (n : Int)
        · rw [if_pos hin, if_pos (by omega)]
        · rw [if_neg hin, if_neg (by omega)]
  rw [hloop]
  by_cases hin : 0 ≤ i ∧ i < s.area
  · rw [if_pos hin, if_pos (by omega)]
  · rw [if_neg hin, if_neg (by omega)]

theorem lfbClear_read (s : Lfb) (c : UInt32) (x y : Int) :
    (lfbClear s c).read x y
      = if 0 ≤ y * s.pitchPx + x ∧ y * s.pitchPx + x < s.area then c
        else s.read x y := by
  obtain ⟨-, -, -, hpitch⟩ := lfbClear_statics s c
  unfold Lfb.read
  rw [hpitch, lfbClear_word]

/-- A pixel whose place is not reached. -/
theorem lfbClear_missed {old : UInt32} {x y : Int}
    (hout : ¬ y * s.pitchPx + x < s.area) :
    (lfbClear { s with word := fun _ => old } c).read x y = old := by
  rw [lfbClear_read]
  exact if_neg fun hplace => hout hplace.2

/-- The fill always gives the colour, so it is the colour that counts. -/
theorem cleared_iff (s : Lfb) (c : UInt32) :
    Cleared s c ↔ ∀ x y, s.Inside (x, y) → (lfbClear s c).read x y = c := by
  refine ⟨fun h => h.1, fun h => ⟨h, fun x y hin => ?_⟩⟩
  rw [h x y hin, lfbFill_all s c hin]

/-- With such a pixel of another colour the screen is not cleared. -/
theorem not_cleared {old : UInt32} {x y : Int} (hin : s.Inside (x, y))
    (hout : ¬ y * s.pitchPx + x < s.area) (hne : old ≠ c) :
    ¬ Cleared { s with word := fun _ => old } c := by
  intro h
  have hread := h.1 x y hin
  rw [lfbClear_missed hout] at hread
  exact hne hread

/-- The loop of `lfb_clear` reaches the place of every visible pixel. -/
def Covers (s : Lfb) : Prop :=
  ∀ x y, s.Inside (x, y) → y * s.pitchPx + x < s.area

/-- A word that is not reached may hold another colour. -/
theorem cleared_forall_iff (hpitch : 0 ≤ s.pitchPx) :
    (∀ m c, Cleared { s with word := m } c) ↔ Covers s := by
  constructor
  · intro hall x y hin
    by_contra hout
    exact not_cleared hin hout (by decide) (hall (fun _ => 1) 0)
  · intro hcovers m c
    rw [cleared_iff]
    intro x y hin
    have hrow : 0 ≤ y * s.pitchPx := Int.mul_nonneg hin.2.2.1 hpitch
    have hcol : 0 ≤ x := hin.1
    have hplace := hcovers x y hin
    rw [lfbClear_read]
    exact if_pos ⟨Int.add_nonneg hrow hcol, hplace⟩

/-- All places are reached exactly when the last one is. -/
theorem covers_iff (hpitch : 0 ≤ s.pitchPx) :
    Covers s ↔ s.W ≤ 0 ∨ s.H ≤ 0 ∨ (s.H - 1) * s.pitchPx + s.W ≤ s.area := by
  constructor
  · intro hcovers
    by_cases hw : s.W ≤ 0
    · exact Or.inl hw
    by_cases hh : s.H ≤ 0
    · exact Or.inr (Or.inl hh)
    have hin : s.Inside (s.W - 1, s.H - 1) := by
      refine ⟨?_, ?_, ?_, ?_⟩ <;> dsimp only <;> omega
    have hlast := hcovers _ _ hin
    exact Or.inr (Or.inr (by omega))
  · intro hlast x y hin
    obtain ⟨hx, hxW, hy, hyH⟩ := hin
    dsimp only at hx hxW hy hyH
    have hrow : y * s.pitchPx ≤ (s.H - 1) * s.pitchPx :=
      Int.mul_le_mul_of_nonneg_right (Int.le_sub_one_of_lt hyH) hpitch
    omega

theorem area_eq (s : Lfb) : s.area = (s.W * s.H).bmod (2 ^ 32) :=
  Int32.toInt_ofInt

/-- There is no padding before the last pixel. -/
theorem last_le_iff {W H P : Int} (hH : 0 < H) (hle : W ≤ P) :
    (H - 1) * P + W ≤ W * H ↔ H = 1 ∨ P = W := by
  have hrows : (H - 1) * W ≤ (H - 1) * P :=
    Int.mul_le_mul_of_nonneg_left hle (by omega)
  have hprod : W * H = (H - 1) * W + W := by ring
  constructor
  · intro hlast
    have heq : (H - 1) * P = (H - 1) * W := by omega
    by_cases hone : H = 1
    · exact Or.inl hone
    · exact Or.inr (Int.eq_of_mul_eq_mul_left (by omega) heq)
  · intro hfits
    cases hfits with
    | inl hone =>
        subst hone
        omega
    | inr hpad =>
        subst hpad
        omega

/-- Where the rows are no wider than the pitch, the number of pixels is a
bound for the last place exactly when there is no padding before it. -/
theorem clear_last_iff {W H P : Int} (hW : 0 < W) (hH : 0 < H) :
    (H - 1) * P + W ≤ (W * H).bmod (2 ^ 32)
      ↔ if W ≤ P then (H = 1 ∨ P = W) ∧ W * H < 2 ^ 31
        else (H - 1) * P + W ≤ (W * H).bmod (2 ^ 32) := by
  by_cases hle : W ≤ P
  · rw [if_pos hle]
    by_cases hfew : W * H < 2 ^ 31
    · have hpos : 0 < W * H := Int.mul_pos hW hH
      have hint : InInt (W * H) := ⟨by omega, hfew⟩
      rw [hint.bmod, last_le_iff hH hle, and_iff_left hfew]
    · -- what is left of the product is less than the places there are
      have hlt := Int.bmod_lt (x := W * H) (m := 2 ^ 32) (by decide)
      have hrows : (H - 1) * W ≤ (H - 1) * P :=
        Int.mul_le_mul_of_nonneg_left hle (by omega)
      have hprod : W * H = (H - 1) * W + W := by ring
      refine iff_of_false (by omega) fun hfits => hfew hfits.2
  · rw [if_neg hle]

/-- The geometries that are cleared, whatever the words and the colour. -/
theorem clearFits_iff (hpitch : 0 ≤ s.pitchPx) :
    (∀ m c, Cleared { s with word := m } c)
      ↔ ClearFits s.W s.H s.pitchPx := by
  rw [cleared_forall_iff hpitch, covers_iff hpitch, area_eq]
  unfold ClearFits
  by_cases hw : s.W ≤ 0
  · exact iff_of_true (Or.inl hw) (Or.inl hw)
  by_cases hh : s.H ≤ 0
  · exact iff_of_true (Or.inr (Or.inl hh)) (Or.inr (Or.inl hh))
  exact or_congr_right (or_congr_right
    (clear_last_iff (by omega) (by omega)))

end Clear

-- ============================================================== the claim

/-- Of the geometries that `lfb_init_fb` accepts, exactly those of
`ClearFits` are cleared. -/
theorem lfb_clear_iff (L : VmmLayout) (v : Vmm) (s : Lfb)
    (addr pitch w h bpp : UInt32)
    (hacc : (lfbInitFb L v s addr pitch w h bpp).2.2 = 1) :
    (∀ m c, Cleared
        { (lfbInitFb L v s addr pitch w h bpp).2.1 with word := m } c)
      ↔ ClearFits w.toInt32.toInt (lfbRows pitch h).toInt32.toInt
          (pitch.toNat / 4 : Nat) := by
  have hset := accepted hacc
  rw [clearFits_iff (by rw [hset.pitchPx]; omega), hset.width, hset.height,
    hset.pitchPx]

/-- 1024 by 768 pixels without padding are cleared. -/
theorem lfb_clear_1024 :
    (lfbInitFb layoutAt2M (vmmInit layoutAt2M fun _ => 0) Lfb.zero
        0xFD000000 4096 1024 768 32).2.2 = 1
      ∧ ∀ m c, Cleared
        { (lfbInitFb layoutAt2M (vmmInit layoutAt2M fun _ => 0) Lfb.zero
          0xFD000000 4096 1024 768 32).2.1 with word := m } c := by
  have hready := (vmmInit_describes layoutAt2M fun _ => 0).1
  have hacc : (lfbInitFb layoutAt2M (vmmInit layoutAt2M fun _ => 0) Lfb.zero
      0xFD000000 4096 1024 768 32).2.2 = 1 :=
    lfbInitFb_ok hready (by decide) (by decide) (by decide)
  exact ⟨hacc, (lfb_clear_iff _ _ _ _ _ _ _ _ hacc).mpr (by decide)⟩

/-- 1366 by 768 pixels in rows of 5504 bytes: the last pixel has its place
after the first `1366 * 768` words. -/
theorem lfb_not_cleared_1366 :
    (lfbInitFb layoutAt2M (vmmInit layoutAt2M fun _ => 0) Lfb.zero
        0xFD000000 5504 1366 768 32).2.2 = 1
      ∧ (lfbInitFb layoutAt2M (vmmInit layoutAt2M fun _ => 0) Lfb.zero
          0xFD000000 5504 1366 768 32).2.1.Inside (1365, 767)
      ∧ (lfbClear { (lfbInitFb layoutAt2M (vmmInit layoutAt2M fun _ => 0)
            Lfb.zero 0xFD000000 5504 1366 768 32).2.1 with
          word := fun _ => 0xFF0000 } 0xFFFFFF).read 1365 767 = 0xFF0000
      ∧ ¬ Cleared { (lfbInitFb layoutAt2M (vmmInit layoutAt2M fun _ => 0)
            Lfb.zero 0xFD000000 5504 1366 768 32).2.1 with
          word := fun _ => 0xFF0000 } 0xFFFFFF := by
  have hready := (vmmInit_describes layoutAt2M fun _ => 0).1
  have hacc : (lfbInitFb layoutAt2M (vmmInit layoutAt2M fun _ => 0) Lfb.zero
      0xFD000000 5504 1366 768 32).2.2 = 1 :=
    lfbInitFb_ok hready (by decide) (by decide) (by decide)
  obtain ⟨-, -, -, -, -, -, -, hwidth, hheight, hpitch⟩ := accepted hacc
  generalize lfbInitFb layoutAt2M (vmmInit layoutAt2M fun _ => 0) Lfb.zero
    0xFD000000 5504 1366 768 32 = r at *
  have hW : r.2.1.W = 1366 := hwidth.trans (by decide)
  have hH : r.2.1.H = 768 := hheight.trans (by decide)
  have hP : r.2.1.pitchPx = 1376 := hpitch.trans (by decide)
  have hin : r.2.1.Inside (1365, 767) := by
    unfold Lfb.Inside
    rw [hW, hH]
    decide
  have hout : ¬ (767 * r.2.1.pitchPx + 1365
      < (r.2.1.W * r.2.1.H).bmod (2 ^ 32)) := by
    rw [hW, hH, hP]
    decide
  have hread : (lfbClear { r.2.1 with word := fun _ => 0xFF0000 }
      0xFFFFFF).read 1365 767 = 0xFF0000 := by
    apply lfbClear_missed
    rw [area_eq]
    exact hout
  refine ⟨hacc, hin, hread, not_cleared hin ?_ (by decide)⟩
  rw [area_eq]
  exact hout

end Thuos.Video
