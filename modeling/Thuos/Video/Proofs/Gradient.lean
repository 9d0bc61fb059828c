/-
The gradient runs from one colour to the other.

Each row of the rectangle gets the colour that `lerp` mixes for it
(`gradient_paints`). The channels of a mixed colour are the mixed channels
(`channel_lerp`), for they stay between those of the two ends and do not
run over into their neighbours. So they go up or down with the rows, from
the colour at the top to the colour at the bottom. The products in between
are `int`s while there are not too many rows (`lerpInts`).
-/
import Thuos.Lib.Word32
import Thuos.Video.Blit
import Thuos.Video.Proofs.Pixels

namespace Thuos.Video

open Loop Word32

-- =============================================================== the channels

section Channels

variable {a b num num' den : Int}

theorem lerpChannel_first (a b den : Int) : lerpChannel a b 0 den = a := by
  unfold lerpChannel
  simp

theorem lerpChannel_last (hden : 0 < den) : lerpChannel a b den den = b := by
  unfold lerpChannel
  rw [Int.mul_tdiv_cancel _ (by omega)]
  omega

theorem lerpChannel_up (hden : 0 < den) (hab : a ≤ b) (h : num ≤ num') :
    lerpChannel a b num den ≤ lerpChannel a b num' den := by
  have hmul : (b - a) * num ≤ (b - a) * num' :=
    Int.mul_le_mul_of_nonneg_left h (by omega)
  exact Int.add_le_add_left (Int.tdiv_le_tdiv hden hmul) a

theorem lerpChannel_down (hden : 0 < den) (hab : b ≤ a) (h : num ≤ num') :
    lerpChannel a b num' den ≤ lerpChannel a b num den := by
  have hmul : (b - a) * num' ≤ (b - a) * num :=
    Int.mul_le_mul_of_nonpos_left (by omega) h
  exact Int.add_le_add_left (Int.tdiv_le_tdiv hden hmul) a

/-- A mixed channel lies between the two. -/
theorem lerpChannel_between (hden : 0 < den) (hlow : 0 ≤ num)
    (hhigh : num ≤ den) :
    min a b ≤ lerpChannel a b num den ∧ lerpChannel a b num den ≤ max a b := by
  have hfirst := lerpChannel_first a b den
  have hlast := lerpChannel_last (a := a) (b := b) hden
  cases Int.le_total a b with
  | inl hab =>
      have hleft := lerpChannel_up hden hab hlow
      have hright := lerpChannel_up hden hab hhigh
      omega
  | inr hab =>
      have hleft := lerpChannel_down hden hab hlow
      have hright := lerpChannel_down hden hab hhigh
      omega

end Channels

section Colours

/-- The channel that starts at bit `k`. -/
theorem channel_eq (c : UInt32) {shift : UInt32} (h : shift < 32) :
    channel c shift = (c.toNat / 2 ^ shift.toNat % 2 ^ 8 : Nat) := by
  have hmod : shift.toNat % 32 = shift.toNat := Nat.mod_eq_of_lt h
  unfold channel
  simp [Nat.shiftRight_eq_div_pow, Nat.and_two_pow_sub_one_eq_mod _ 8, hmod]

theorem channel_16 (c : UInt32) :
    channel c 16 = (c.toNat / 2 ^ 16 % 2 ^ 8 : Nat) :=
  channel_eq c (by decide)

theorem channel_8 (c : UInt32) :
    channel c 8 = (c.toNat / 2 ^ 8 % 2 ^ 8 : Nat) := channel_eq c (by decide)

theorem channel_0 (c : UInt32) : channel c 0 = (c.toNat % 2 ^ 8 : Nat) := by
  rw [channel_eq c (by decide)]
  simp

theorem toNat_ofInt {n : Nat} (h : n < 256) : (UInt32.ofInt n).toNat = n := by
  unfold UInt32.ofInt
  rw [UInt32.toNat_ofNat']
  omega

/-- The three channels in one word. -/
theorem pack_toNat {r g b : Nat} (hr : r < 256) (hg : g < 256)
    (hb : b < 256) :
    ((UInt32.ofInt r <<< 16) ||| (UInt32.ofInt g <<< 8)
        ||| UInt32.ofInt b).toNat
      = 2 ^ 16 * r + 2 ^ 8 * g + b := by
  have hhigh : (UInt32.ofInt r <<< 16).toNat = r * 2 ^ 16 := by
    rw [UInt32.toNat_shiftLeft, toNat_ofInt hr, Nat.shiftLeft_eq]
    show r * 2 ^ 16 % 2 ^ 32 = r * 2 ^ 16
    omega
  have hmid : (UInt32.ofInt g <<< 8).toNat = g * 2 ^ 8 := by
    rw [UInt32.toNat_shiftLeft, toNat_ofInt hg, Nat.shiftLeft_eq]
    show g * 2 ^ 8 % 2 ^ 32 = g * 2 ^ 8
    omega
  have hsum : r * 2 ^ 16 + g * 2 ^ 8 = (r * 2 ^ 8 + g) * 2 ^ 8 := by omega
  have htop : r * 2 ^ 16 ||| g * 2 ^ 8 = (r * 2 ^ 8 + g) * 2 ^ 8 := by
    have hlow : g * 2 ^ 8 < 2 ^ 16 := by omega
    rw [or_low r hlow, hsum]
  have hall : (r * 2 ^ 8 + g) * 2 ^ 8 ||| b = 2 ^ 16 * r + 2 ^ 8 * g + b := by
    have hlow : b < 2 ^ 8 := hb
    rw [or_low (r * 2 ^ 8 + g) hlow]
    ring
  simp only [UInt32.toNat_or, hhigh, hmid, toNat_ofInt hb, htop, hall]

/-- The word that `lerp` mixes. -/
theorem lerp_toNat (a b : UInt32) {num den : Int} (hden : 0 < den)
    (hlow : 0 ≤ num) (hhigh : num ≤ den) :
    ((lerp a b num den).toNat : Int)
      = 2 ^ 16 * lerpChannel (channel a 16) (channel b 16) num den
        + 2 ^ 8 * lerpChannel (channel a 8) (channel b 8) num den
        + lerpChannel (channel a 0) (channel b 0) num den
      ∧ ∀ k ∈ [16, 8, 0],
        0 ≤ lerpChannel (channel a k) (channel b k) num den
          ∧ lerpChannel (channel a k) (channel b k) num den < 256 := by
  have hbounds : ∀ k ∈ [(16 : UInt32), 8, 0],
      0 ≤ lerpChannel (channel a k) (channel b k) num den
        ∧ lerpChannel (channel a k) (channel b k) num den < 256 := by
    intro k hk
    have hshift : k < 32 := by
      simp only [List.mem_cons, List.not_mem_nil, or_false] at hk
      rcases hk with rfl | rfl | rfl
      · decide
      · decide
      · decide
    obtain ⟨hmin, hmax⟩ := lerpChannel_between (a := channel a k)
      (b := channel b k) hden hlow hhigh
    have ha := channel_eq a hshift
    have hb := channel_eq b hshift
    omega
  refine ⟨?_, hbounds⟩
  obtain ⟨hr, hr'⟩ := hbounds 16 (by simp)
  obtain ⟨hg, hg'⟩ := hbounds 8 (by simp)
  obtain ⟨hl, hl'⟩ := hbounds 0 (by simp)
  unfold lerp
  dsimp only
  generalize lerpChannel (channel a 16) (channel b 16) num den = r at *
  generalize lerpChannel (channel a 8) (channel b 8) num den = g at *
  generalize lerpChannel (channel a 0) (channel b 0) num den = bl at *
  lift r to Nat using hr
  lift g to Nat using hg
  lift bl to Nat using hl
  rw [pack_toNat (by omega) (by omega) (by omega)]
  push_cast
  rfl

/-- The channels of a mixed colour are the mixed channels. -/
theorem channel_lerp (a b : UInt32) {num den : Int} (hden : 0 < den)
    (hlow : 0 ≤ num) (hhigh : num ≤ den) {k : UInt32} (hk : k ∈ [16, 8, 0]) :
    channel (lerp a b num den) k
      = lerpChannel (channel a k) (channel b k) num den := by
  obtain ⟨hword, hbounds⟩ := lerp_toNat a b hden hlow hhigh
  obtain ⟨hr, hr'⟩ := hbounds 16 (by simp)
  obtain ⟨hg, hg'⟩ := hbounds 8 (by simp)
  obtain ⟨hl, hl'⟩ := hbounds 0 (by simp)
  simp only [List.mem_cons, List.not_mem_nil, or_false] at hk
  rcases hk with rfl | rfl | rfl
  · rw [channel_16]
    omega
  · rw [channel_8]
    omega
  · rw [channel_0]
    omega

/-- The two ends of a gradient, but for the unused byte. -/
theorem lerp_first (a b : UInt32) {den : Int} (hden : 0 < den) :
    lerp a b 0 den = a &&& 0xFFFFFF := by
  obtain ⟨hword, -⟩ := lerp_toNat a b hden (le_refl 0) (by omega)
  rw [lerpChannel_first, lerpChannel_first, lerpChannel_first, channel_16,
    channel_8, channel_0] at hword
  apply UInt32.toNat_inj.mp
  rw [UInt32.toNat_and]
  have hmask : a.toNat &&& UInt32.toNat 0xFFFFFF = a.toNat % 2 ^ 24 :=
    Nat.and_two_pow_sub_one_eq_mod a.toNat 24
  rw [hmask]
  omega

theorem lerp_last (a b : UInt32) {den : Int} (hden : 0 < den) :
    lerp a b den den = b &&& 0xFFFFFF := by
  obtain ⟨hword, -⟩ := lerp_toNat a b hden (by omega) (le_refl den)
  rw [lerpChannel_last hden, lerpChannel_last hden, lerpChannel_last hden,
    channel_16, channel_8, channel_0] at hword
  apply UInt32.toNat_inj.mp
  rw [UInt32.toNat_and]
  have hmask : b.toNat &&& UInt32.toNat 0xFFFFFF = b.toNat % 2 ^ 24 :=
    Nat.and_two_pow_sub_one_eq_mod b.toNat 24
  rw [hmask]
  omega

end Colours

-- ================================================================ the gradient

/-- The colour of row `j` of a gradient of `h` rows. -/
def rowColour (top bot : UInt32) (h j : Int) : UInt32 :=
  lerp top bot j (if h > 1 then h - 1 else 1)

/-- A gradient of `h` rows from one colour to another. -/
structure Gradient (top bot : UInt32) (h : Int) (colour : Int → UInt32) :
    Prop where
  first : colour 0 = top &&& 0xFFFFFF
  last : 1 < h → colour (h - 1) = bot &&& 0xFFFFFF
  up : ∀ k ∈ [(16 : UInt32), 8, 0], channel top k ≤ channel bot k →
    ∀ i j, 0 ≤ i → i ≤ j → j < h →
      channel (colour i) k ≤ channel (colour j) k
  down : ∀ k ∈ [(16 : UInt32), 8, 0], channel bot k ≤ channel top k →
    ∀ i j, 0 ≤ i → i ≤ j → j < h →
      channel (colour j) k ≤ channel (colour i) k

theorem rowColour_gradient (top bot : UInt32) (h : Int) :
    Gradient top bot h (rowColour top bot h) := by
  have hden : 0 < if h > 1 then h - 1 else 1 := by
    split
    · omega
    · decide
  have hrow : ∀ j, j < h → j ≤ if h > 1 then h - 1 else 1 := by
    intro j hj
    split
    · omega
    · omega
  refine ⟨lerp_first top bot hden, fun hh => ?_, ?_, ?_⟩
  · unfold rowColour
    rw [if_pos hh]
    exact lerp_last top bot (by omega)
  · intro k hk hchannel i j hi hij hj
    unfold rowColour
    rw [channel_lerp top bot hden hi (hrow i (by omega)) hk,
      channel_lerp top bot hden (by omega) (hrow j hj) hk]
    exact lerpChannel_up hden hchannel hij
  · intro k hk hchannel i j hi hij hj
    unfold rowColour
    rw [channel_lerp top bot hden hi (hrow i (by omega)) hk,
      channel_lerp top bot hden (by omega) (hrow j hj) hk]
    exact lerpChannel_down hden hchannel hij

/-- The products of `lerp` are `int`s. -/
def LerpInts (a b : UInt32) (num : Int) : Prop :=
  ∀ k ∈ [(16 : UInt32), 8, 0], InInt ((channel b k - channel a k) * num)

/-- Two channels differ by 255 at most. -/
theorem lerpInts (a b : UInt32) {num : Int} (hlow : 0 ≤ num)
    (hhigh : num ≤ 8421504) : LerpInts a b num := by
  intro k hk
  have hshift : k < 32 := by
    simp only [List.mem_cons, List.not_mem_nil, or_false] at hk
    rcases hk with rfl | rfl | rfl
    · decide
    · decide
    · decide
  have ha := channel_eq a hshift
  have hb := channel_eq b hshift
  have hup : (channel b k - channel a k) * num ≤ 255 * num :=
    Int.mul_le_mul_of_nonneg_right (by omega) hlow
  have hdown : -255 * num ≤ (channel b k - channel a k) * num :=
    Int.mul_le_mul_of_nonneg_right (by omega) hlow
  unfold InInt
  omega

/-- On the screen the rows of the rectangle get the colours of a gradient,
and nothing else changes, as long as there are no more rows than the
products of `lerp` can take: 8421505. -/
theorem lfb_gradient_v_blends (s : Lfb) {x y w h : Int} (hf : Fits s x y w h)
    (hrows : h ≤ 8421505) (top bot : UInt32) :
    ∃ colour, Gradient top bot h colour
      ∧ Paints s (lfbGradientV s x y w h top bot) (InRect x y w h)
        (fun _ row => colour (row - y))
      ∧ ∀ j, 0 ≤ j → j < h → LerpInts top bot j := by
  refine ⟨_, rowColour_gradient top bot h, ?_,
    fun j hj hjh => lerpInts top bot hj (by omega)⟩
  have hrows : Paints s (lfbGradientV s x y w h top bot)
      (InRect x y w h.toNat) fun _ row => rowColour top bot h (row - y) := by
    refine upTo_paints (R := fun n => InRect x y w n)
      (fun col row => not_inRect (.inr (by omega))) fun j hj t ht => ?_
    have hfits := ht.fits hf
    have hrow : Fits t x (y + j) w 1 := by
      have hbottom := hfits.bottom
      have htop := hfits.top
      exact { hfits with
        top := by omega, height := by decide, bottom := by omega }
    refine ⟨_, _, lfbFill_paints hrow _, fun col row hin => ?_,
      fun col row => ?_⟩
    · obtain ⟨-, -, hlow, hhigh⟩ := hin
      have hsame : row - y = j := by omega
      rw [hsame]
      rfl
    · push_cast
      exact inRect_below (by omega) (by omega)
  rw [Int.toNat_of_nonneg hf.height] at hrows
  exact hrows

/-- Three rows, from black to white. -/
theorem lfb_gradient_v_blends_rows :
    ∃ colour, Gradient 0 0xFFFFFF 3 colour
      ∧ Paints ⟨0, 2, 3, 2, true, fun _ => 0, []⟩
        (lfbGradientV ⟨0, 2, 3, 2, true, fun _ => 0, []⟩ 0 0 2 3 0 0xFFFFFF)
        (InRect 0 0 2 3) (fun _ row => colour (row - 0))
      ∧ ∀ j, 0 ≤ j → j < 3 → LerpInts 0 0xFFFFFF j := by
  refine lfb_gradient_v_blends _ ?_ (by decide) 0 0xFFFFFF
  constructor
  · simp
  · simp
  · simp
  · simp
  · simp
  · simp
  · simp

end Thuos.Video
