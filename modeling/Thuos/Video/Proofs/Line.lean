/-
The points of a line.

The loop of `lfb_line` is the walk with an error term (`walk`) along the
longer side of the line, with the coordinates exchanged and the error
negated if that side is the vertical one or the two are equal
(`move_across`, `move_down`). Its only exit is the end point. It gets
there because on the last step of the longer side the walk has made every
step of the shorter one, and nowhere before.
-/
import Thuos.Lib.DigitalLine
import Thuos.Video.Proofs.FillPixels
import Thuos.Video.Shapes

namespace Thuos.Video

open DigitalLine Word32

-- ========================================================== what is stated

/-- The point that a turn plots. -/
def LineTurn.point (t : LineTurn) : Int × Int := (t.x0, t.y0)

/-- `lfb_pixel` for each turn. -/
def plotAll (rgb : UInt32) (s : Lfb) (ts : List LineTurn) : Lfb :=
  ts.foldl (fun s t => lfbPixel s t.x0 t.y0 rgb) s

/-- What a turn computes is an `int`. -/
structure LineInts (v : LineVars) (t : LineTurn) : Prop where
  adx : InInt v.adx ∧ InInt (-v.adx)
  ady : InInt v.ady ∧ InInt (-v.ady)
  err : InInt t.err ∧ InInt (t.err - v.ady)
  moved : InInt (t.err + v.adx) ∧ InInt (t.err - v.ady + v.adx)
  x0 : InInt (t.x0 + v.sx)
  y0 : InInt (t.y0 + v.sy)

-- ================================================================ the turns

section Turns

variable {v : LineVars} {u t : Turn} {a b σ τ n m k : Int}

/-- The turn, if the longer side is the horizontal one. -/
def acrossTurn (u : Turn) : LineTurn := ⟨u.long, u.short, u.slack⟩

/-- The turn, if it is not. -/
def downTurn (u : Turn) : LineTurn := ⟨u.short, u.long, -u.slack⟩

/-- Both steps look at the error before them. -/
theorem lineMove_eq (v : LineVars) (t : LineTurn) :
    lineMove v t
      = { x0 := if t.err > -v.adx then t.x0 + v.sx else t.x0
          y0 := if t.err < v.ady then t.y0 + v.sy else t.y0
          err := (if t.err > -v.adx then t.err - v.ady else t.err)
            + (if t.err < v.ady then v.adx else 0) } := by
  unfold lineMove
  dsimp only
  by_cases hx : t.err > -v.adx
  · rw [if_pos hx, if_pos hx, if_pos hx]
    by_cases hy : t.err < v.ady
    · rw [if_pos hy, if_pos hy, if_pos hy]
    · rw [if_neg hy, if_neg hy, if_neg hy, Int.add_zero]
  · rw [if_neg hx, if_neg hx, if_neg hx]
    by_cases hy : t.err < v.ady
    · rw [if_pos hy, if_pos hy, if_pos hy]
    · rw [if_neg hy, if_neg hy, if_neg hy, Int.add_zero]

theorem move_across (hlow : 0 ≤ u.slack) (hhigh : u.slack < v.adx) :
    lineMove v (acrossTurn u)
      = acrossTurn (u.next v.sx v.sy v.adx v.ady) := by
  have hx : u.slack > -v.adx := by omega
  rw [lineMove_eq]
  unfold acrossTurn Turn.next
  dsimp only
  rw [if_pos hx, if_pos hx]
  by_cases hrise : u.slack < v.ady
  · rw [if_pos hrise, if_pos hrise, if_pos hrise]
  · rw [if_neg hrise, if_neg hrise, if_neg hrise, Int.add_zero]

theorem move_down (hlow : 0 ≤ u.slack) (hhigh : u.slack < v.ady) :
    lineMove v (downTurn u) = downTurn (u.next v.sy v.sx v.ady v.adx) := by
  have hy : -u.slack < v.ady := by omega
  rw [lineMove_eq]
  unfold downTurn Turn.next
  dsimp only
  rw [if_pos hy, if_pos hy]
  by_cases hrise : u.slack < v.adx
  · have hx : -u.slack > -v.adx := by omega
    rw [if_pos hx, if_pos hx, if_pos hrise]
    simp only [LineTurn.mk.injEq, true_and]
    omega
  · have hx : ¬ -u.slack > -v.adx := by omega
    rw [if_neg hx, if_neg hx, if_neg hrise]
    simp only [LineTurn.mk.injEq, true_and]
    omega

/-- The loop from the turn `t` on, if its turns are those of the walk, and
its exit is where the walk ends. -/
theorem lineLoop_walk {f : Turn → LineTurn} {rgb : UInt32}
    (hmove : ∀ u : Turn, 0 ≤ u.slack → u.slack < n →
      lineMove v (f u) = f (u.next σ τ n m))
    (hstop : ∀ u, ((f u).x0 = v.x1 ∧ (f u).y0 = v.y1)
      ↔ u.point = (a + σ * n, b + τ * m))
    (hσ : σ = 1 ∨ σ = -1) (hm : 0 ≤ m) (hmn : m ≤ n) (d : Nat)
    (h : Turn.At a b σ τ n m k t) (hd : k + d = n) (s : Lfb) {fuel : Nat}
    (hfuel : d < fuel) :
    lineLoop v rgb fuel s (f t)
      = some (plotAll rgb s ((walk σ τ n m d t).map f),
          (walk σ τ n m d t).map f) := by
  induction d generalizing k t s fuel with
  | zero =>
      obtain ⟨fuel, rfl⟩ := Nat.exists_eq_succ_of_ne_zero (by omega : fuel ≠ 0)
      obtain rfl : k = n := by omega
      unfold lineLoop
      rw [if_pos ((hstop t).mpr h.last)]
      rfl
  | succ d ih =>
      obtain ⟨fuel, rfl⟩ := Nat.exists_eq_succ_of_ne_zero (by omega : fuel ≠ 0)
      have hgo := mt (hstop t).mp (h.not_last hσ (by omega))
      unfold lineLoop
      dsimp only
      rw [if_neg hgo, hmove t h.low h.high,
        ih (h.next hm hmn) (by omega) _ (by omega)]
      rfl

end Turns

-- ============================================================= the two sides

section Sides

variable {x0 y0 x1 y1 : Int}

/-- The direction along a side, and its length. -/
theorem side_eq (d : Int) :
    (if d < 0 then -d else d) = |d|
      ∧ ((if d < 0 then (-1 : Int) else 1) = 1
        ∨ (if d < 0 then (-1 : Int) else 1) = -1)
      ∧ (if d < 0 then (-1 : Int) else 1) * |d| = d := by
  by_cases hd : d < 0
  · rw [if_pos hd, if_pos hd, abs_of_neg hd]
    refine ⟨rfl, Or.inr rfl, ?_⟩
    omega
  · rw [if_neg hd, if_neg hd, abs_of_nonneg (by omega)]
    refine ⟨rfl, Or.inl rfl, ?_⟩
    omega

theorem lineVars_x (x0 y0 x1 y1 : Int) :
    (lineVars x0 y0 x1 y1).adx = |x1 - x0|
      ∧ ((lineVars x0 y0 x1 y1).sx = 1 ∨ (lineVars x0 y0 x1 y1).sx = -1)
      ∧ x0 + (lineVars x0 y0 x1 y1).sx * |x1 - x0| = x1 := by
  obtain ⟨hlen, hsign, hprod⟩ := side_eq (x1 - x0)
  refine ⟨hlen, hsign, ?_⟩
  show x0 + (if x1 - x0 < 0 then (-1 : Int) else 1) * |x1 - x0| = x1
  rw [hprod]
  omega

theorem lineVars_y (x0 y0 x1 y1 : Int) :
    (lineVars x0 y0 x1 y1).ady = |y1 - y0|
      ∧ ((lineVars x0 y0 x1 y1).sy = 1 ∨ (lineVars x0 y0 x1 y1).sy = -1)
      ∧ y0 + (lineVars x0 y0 x1 y1).sy * |y1 - y0| = y1 := by
  obtain ⟨hlen, hsign, hprod⟩ := side_eq (y1 - y0)
  refine ⟨hlen, hsign, ?_⟩
  show y0 + (if y1 - y0 < 0 then (-1 : Int) else 1) * |y1 - y0| = y1
  rw [hprod]
  omega

/-- The turns of a line, and what there is to say about them: where the
loop gets to, the points it plots, and the size of the error. -/
structure Turns (x0 y0 x1 y1 : Int) (ts : List LineTurn) : Prop where
  run : ∀ s rgb fuel, max |x1 - x0| |y1 - y0| < (fuel : Nat) →
    lfbLine fuel s x0 y0 x1 y1 rgb = some (plotAll rgb s ts, ts)
  length : (ts.length : Int) = max |x1 - x0| |y1 - y0| + 1
  line : Line (x0, y0) (x1, y1) (ts.map LineTurn.point)
  err : ∀ t ∈ ts, |t.err| ≤ max |x1 - x0| |y1 - y0|

/-- The turns are those of a walk along a side of length `n`. -/
theorem turns_of_walk {f : Turn → LineTurn} {a b σ τ n m : Int}
    (hlen : max |x1 - x0| |y1 - y0| = n) (hn : 0 < n) (hm : 0 ≤ m)
    (hmn : m ≤ n) (hσ : σ = 1 ∨ σ = -1)
    (hstart : lineStart x0 y0 x1 y1 = f ⟨a, b, n / 2⟩)
    (hmove : ∀ u : Turn, 0 ≤ u.slack → u.slack < n →
      lineMove (lineVars x0 y0 x1 y1) (f u) = f (u.next σ τ n m))
    (hstop : ∀ u, ((f u).x0 = x1 ∧ (f u).y0 = y1)
      ↔ u.point = (a + σ * n, b + τ * m))
    (herr : ∀ u, |(f u).err| = |u.slack|)
    (hline : Line (x0, y0) (x1, y1)
      ((walk σ τ n m n.toNat ⟨a, b, n / 2⟩).map (LineTurn.point ∘ f))) :
    ∃ ts, Turns x0 y0 x1 y1 ts := by
  have hat : Turn.At a b σ τ n m 0 ⟨a, b, n / 2⟩ := Turn.at_zero hn
  refine ⟨(walk σ τ n m n.toNat ⟨a, b, n / 2⟩).map f, ?_, ?_, ?_, ?_⟩
  · intro s rgb fuel hfuel
    unfold lfbLine
    rw [hstart]
    exact lineLoop_walk hmove hstop hσ hm hmn _ hat (by omega) s (by omega)
  · rw [List.length_map, walk_length]
    omega
  · rw [List.map_map]
    exact hline
  · intro t ht
    obtain ⟨u, hu, rfl⟩ := List.mem_map.mp ht
    obtain ⟨hlow, hhigh⟩ := walk_slack hm hmn _ hat u hu
    rw [herr, abs_of_nonneg hlow]
    omega

/-- A line that is wider than high. -/
theorem turns_across (hwide : |y1 - y0| < |x1 - x0|) :
    ∃ ts, Turns x0 y0 x1 y1 ts := by
  obtain ⟨hadx, hsx, hx⟩ := lineVars_x x0 y0 x1 y1
  obtain ⟨hady, hsy, hy⟩ := lineVars_y x0 y0 x1 y1
  have hm := abs_nonneg (y1 - y0)
  have hn : 0 < |x1 - x0| := by omega
  have hstart : lineStart x0 y0 x1 y1
      = acrossTurn ⟨x0, y0, |x1 - x0| / 2⟩ := by
    unfold lineStart
    dsimp only
    rw [hadx, hady, if_pos hwide, Int.tdiv_eq_ediv_of_nonneg (by omega)]
    rfl
  have hat : Turn.At x0 y0 (lineVars x0 y0 x1 y1).sx
      (lineVars x0 y0 x1 y1).sy |x1 - x0| |y1 - y0| 0
      ⟨x0, y0, |x1 - x0| / 2⟩ := Turn.at_zero hn
  have hline := walk_line hm (by omega) hsx hsy |x1 - x0|.toNat hat
    (by omega) (by omega)
  rw [hx, hy] at hline
  refine turns_of_walk (max_eq_left (by omega)) hn hm (by omega) hsx hstart
    (fun u hlow hhigh => ?_) (fun u => ?_) (fun _ => rfl) hline
  · rw [move_across hlow (by omega), hadx, hady]
  · rw [hx, hy]
    show u.long = x1 ∧ u.short = y1 ↔ (u.long, u.short) = (x1, y1)
    rw [Prod.mk.injEq]

/-- A line that is as high as wide, or higher. -/
theorem turns_down (hhigh : |x1 - x0| ≤ |y1 - y0|) (hn : 0 < |y1 - y0|) :
    ∃ ts, Turns x0 y0 x1 y1 ts := by
  obtain ⟨hadx, hsx, hx⟩ := lineVars_x x0 y0 x1 y1
  obtain ⟨hady, hsy, hy⟩ := lineVars_y x0 y0 x1 y1
  have hm := abs_nonneg (x1 - x0)
  have hstart : lineStart x0 y0 x1 y1
      = downTurn ⟨y0, x0, |y1 - y0| / 2⟩ := by
    unfold lineStart
    dsimp only
    -- the half of a negative number, truncated
    rw [hadx, hady, if_neg (by omega), Int.neg_tdiv,
      Int.tdiv_eq_ediv_of_nonneg (by omega)]
    rfl
  have hat : Turn.At y0 x0 (lineVars x0 y0 x1 y1).sy
      (lineVars x0 y0 x1 y1).sx |y1 - y0| |x1 - x0| 0
      ⟨y0, x0, |y1 - y0| / 2⟩ := Turn.at_zero hn
  have hline := (walk_line hm hhigh hsy hsx |y1 - y0|.toNat hat
    (by omega) (by omega)).swap
  rw [hx, hy, List.map_map] at hline
  refine turns_of_walk (max_eq_right hhigh) hn hm hhigh hsy hstart
    (fun u hlow hhigh => ?_) (fun u => ?_) (fun u => abs_neg u.slack) hline
  · rw [move_down hlow (by omega), hadx, hady]
  · rw [hx, hy]
    show u.short = x1 ∧ u.long = y1 ↔ (u.long, u.short) = (y1, x1)
    rw [Prod.mk.injEq, and_comm]

/-- A line of one point. -/
theorem turns_point (x0 y0 : Int) :
    ∃ ts, Turns x0 y0 x0 y0 ts := by
  have hzero : max |x0 - x0| |y0 - y0| = 0 := by
    rw [Int.sub_self, Int.sub_self, abs_zero, max_self]
  have herr : (lineStart x0 y0 x0 y0).err = 0 := by
    unfold lineStart lineVars
    simp only [Int.sub_self, lt_irrefl, if_false]
    rfl
  refine ⟨[lineStart x0 y0 x0 y0], ?_, ?_, Line.point (x0, y0), ?_⟩
  · intro s rgb fuel hfuel
    obtain ⟨fuel, rfl⟩ := Nat.exists_eq_succ_of_ne_zero (by omega : fuel ≠ 0)
    unfold lfbLine lineLoop
    exact if_pos ⟨rfl, rfl⟩
  · rw [hzero]
    rfl
  · intro t ht
    rw [List.mem_singleton.mp ht, herr, hzero, abs_zero]

theorem exists_turns (x0 y0 x1 y1 : Int) : ∃ ts, Turns x0 y0 x1 y1 ts := by
  have hm := abs_nonneg (x1 - x0)
  by_cases hwide : |y1 - y0| < |x1 - x0|
  · exact turns_across hwide
  by_cases hn : 0 < |y1 - y0|
  · exact turns_down (by omega) hn
  · have hx : |x1 - x0| = 0 := by omega
    have hy : |y1 - y0| = 0 := by
      have hm' := abs_nonneg (y1 - y0)
      omega
    obtain rfl : x1 = x0 := by
      rw [abs_eq_zero] at hx
      omega
    obtain rfl : y1 = y0 := by
      rw [abs_eq_zero] at hy
      omega
    exact turns_point x1 y1

end Sides

-- ============================================================= what is seen

/-- `lfb_pixel` for each turn gives the points on the screen the colour,
and touches no other pixel. -/
theorem plotAll_inks {s : Lfb} {rgb : UInt32} {ts : List LineTurn}
    (hs : Sized s) (hints : ∀ t ∈ ts, InInt t.x0 ∧ InInt t.y0) :
    Within (fun col row => (col, row) ∈ ts.map LineTurn.point
          ∧ s.Inside (col, row)) s (plotAll rgb s ts)
      ∧ Inks rgb s (plotAll rgb s ts)
      ∧ ∀ p ∈ ts.map LineTurn.point, s.Inside p →
        (plotAll rgb s ts).read p.1 p.2 = rgb := by
  induction ts generalizing s with
  | nil =>
      exact ⟨Within.refl _ s, Inks.refl s, fun p hp =>
        absurd hp List.not_mem_nil⟩
  | cons t ts ih =>
      obtain ⟨ht, hts⟩ := List.forall_mem_cons.mp hints
      have hpixel : lfbPixel s t.x0 t.y0 rgb = pixelOf s rgb s t.x0 t.y0 :=
        lfbPixel_eq hs (Grows.refl s) ht.1 ht.2
      have hone : Within (fun col row => (col, row) = t.point
            ∧ s.Inside (col, row)) s (lfbPixel s t.x0 t.y0 rgb)
          ∧ Inks rgb s (lfbPixel s t.x0 t.y0 rgb)
          ∧ (s.Inside t.point →
            (lfbPixel s t.x0 t.y0 rgb).read t.x0 t.y0 = rgb) := by
        rw [hpixel]
        unfold pixelOf
        by_cases hin : s.Inside (t.x0, t.y0)
        · rw [if_pos hin]
          obtain ⟨hinks, hword⟩ := inks_write s rgb t.x0 t.y0
          exact ⟨write_within ⟨rfl, hin⟩ rgb, hinks, fun _ => hword⟩
        · rw [if_neg hin]
          exact ⟨Within.refl _ s, Inks.refl s, fun h => absurd h hin⟩
      have hrest : plotAll rgb s (t :: ts)
          = plotAll rgb (lfbPixel s t.x0 t.y0 rgb) ts := rfl
      rw [hrest]
      generalize lfbPixel s t.x0 t.y0 rgb = u at hone
      obtain ⟨hwithin₁, hinks₁, hread₁⟩ := hone
      have hu : Sized u := by
        obtain ⟨h1, h2, h3, h4⟩ := hs
        rw [← hinks₁.W] at h1 h3
        rw [← hinks₁.H] at h2 h4
        exact ⟨h1, h2, h3, h4⟩
      obtain ⟨hwithin, hinks, hread⟩ := ih hu hts
      refine ⟨(hwithin₁.mono ?_).trans (hwithin.mono ?_),
        hinks₁.trans hinks, fun p hp hin => ?_⟩
      · rintro col row ⟨heq, hin⟩
        rw [heq] at hin ⊢
        exact ⟨List.mem_cons_self, hin⟩
      · rintro col row ⟨hmem, hin⟩
        exact ⟨List.mem_cons_of_mem _ hmem, (hinks₁.inside _).mp hin⟩
      · cases List.mem_cons.mp hp with
        | inl heq =>
            subst heq
            exact hinks.read (hread₁ hin)
        | inr hmem => exact hread p hmem ((hinks₁.inside p).mpr hin)

-- =============================================================== the claim

/-- `lfb_line` returns after as many turns as the longer side has points,
and plots a line from one end to the other that stays in their box. What
it computes are `int`s. On a screen, each plotted point that is on it has the
colour afterwards, and every other word of the rows is as it was. -/
theorem lfb_line_draws (s : Lfb) (x0 y0 x1 y1 : Int) (rgb : UInt32)
    (hx0 : |x0| ≤ 2 ^ 28) (hy0 : |y0| ≤ 2 ^ 28) (hx1 : |x1| ≤ 2 ^ 28)
    (hy1 : |y1| ≤ 2 ^ 28) :
    ∃ ts,
      (∀ fuel, max |x1 - x0| |y1 - y0| < (fuel : Nat) →
        lfbLine fuel s x0 y0 x1 y1 rgb = some (plotAll rgb s ts, ts))
      ∧ (ts.length : Int) = max |x1 - x0| |y1 - y0| + 1
      ∧ Line (x0, y0) (x1, y1) (ts.map LineTurn.point)
      ∧ (∀ p ∈ ts.map LineTurn.point, InBox (x0, y0) (x1, y1) p)
      ∧ (∀ t ∈ ts, LineInts (lineVars x0 y0 x1 y1) t)
      ∧ (Sized s →
        Within (fun col row => (col, row) ∈ ts.map LineTurn.point
            ∧ s.Inside (col, row)) s (plotAll rgb s ts)
          ∧ ∀ p ∈ ts.map LineTurn.point, s.Inside p →
            (plotAll rgb s ts).read p.1 p.2 = rgb) := by
  obtain ⟨ts, hts⟩ := exists_turns x0 y0 x1 y1
  refine ⟨ts, hts.run s rgb, hts.length, hts.line, hts.line.box, ?_, ?_⟩
  rotate_left
  · intro hs
    have hinks := @plotAll_inks s rgb ts hs fun t ht => by
      obtain ⟨hcol, hrow⟩ := hts.line.box _ (List.mem_map_of_mem ht)
      rw [abs_le] at hx0 hy0 hx1 hy1
      unfold Between LineTurn.point at hcol hrow
      unfold InInt
      dsimp only at hcol hrow
      omega
    exact ⟨hinks.1, hinks.2.2⟩
  intro t ht
  obtain ⟨hcol, hrow⟩ := hts.line.box _ (List.mem_map_of_mem ht)
  have herr := hts.err t ht
  obtain ⟨hadx, hsx, -⟩ := lineVars_x x0 y0 x1 y1
  obtain ⟨hady, hsy, -⟩ := lineVars_y x0 y0 x1 y1
  have hwide : |x1 - x0| ≤ 2 ^ 29 := by
    have hsub := abs_sub x1 x0
    omega
  have hhigh : |y1 - y0| ≤ 2 ^ 29 := by
    have hsub := abs_sub y1 y0
    omega
  have hn := abs_nonneg (x1 - x0)
  have hm := abs_nonneg (y1 - y0)
  have hmax : max |x1 - x0| |y1 - y0| ≤ 2 ^ 29 := max_le hwide hhigh
  rw [abs_le] at hx0 hy0 hx1 hy1 herr
  unfold Between LineTurn.point at hcol hrow
  dsimp only at hcol hrow
  generalize lineVars x0 y0 x1 y1 = v at *
  refine ⟨?_, ?_, ?_, ?_, ?_, ?_⟩ <;> unfold InInt <;> omega

/-- A line down and to the left. -/
theorem lfb_line_draws_left :
    ∃ ts,
      (∀ fuel, max |(-3 : Int) - 2| |(9 : Int) - 1| < (fuel : Nat) →
        lfbLine fuel paddedLfb 2 1 (-3) 9 7
          = some (plotAll 7 paddedLfb ts, ts))
      ∧ (ts.length : Int) = max |(-3 : Int) - 2| |(9 : Int) - 1| + 1
      ∧ Line (2, 1) (-3, 9) (ts.map LineTurn.point) := by
  obtain ⟨ts, hrun, hlength, hline, -⟩ := lfb_line_draws paddedLfb 2 1 (-3) 9
    7 (by decide) (by decide) (by decide) (by decide)
  exact ⟨ts, hrun, hlength, hline⟩

end Thuos.Video
