/-
Digital lines: from one point of the grid to another in steps of a king,
each towards the end.

`Line p e ps` says that the points `ps` are such a line; it stays in the
box of its two ends (`Line.box`). There are two ways to make one. The walk
with an error term goes along the longer side, and takes a step along the
shorter side where the term falls below it: the term is what half the
longer side and the steps taken leave of a multiple (`Turn.At`), so at the
end of the longer side it is at the end of the shorter one too
(`walk_line`). The interpolation divides what has been gone of the whole
at each point, truncating towards zero (`interpolate_line`).
-/
import Mathlib

namespace DigitalLine

-- ========================================================== one coordinate

section Coordinate

variable {a b c e : Int}

/-- `b` is `a`, or the number after it on the way to `e`. -/
def Toward (e a b : Int) : Prop :=
  b = a ∨ (a < e ∧ b = a + 1) ∨ (e < a ∧ b = a - 1)

instance (e a b : Int) : Decidable (Toward e a b) :=
  inferInstanceAs (Decidable (_ ∨ _))

/-- `c` is not outside of `a` and `e`. -/
def Between (a e c : Int) : Prop := min a e ≤ c ∧ c ≤ max a e

theorem between_left (a e : Int) : Between a e a :=
  ⟨min_le_left a e, le_max_left a e⟩

/-- What is between the next number and the end is between this one and
the end. -/
theorem Toward.between (h : Toward e a b) (hc : Between b e c) :
    Between a e c := by
  unfold Toward at h
  unfold Between at *
  omega

/-- The next step of `n` in one direction. -/
theorem toward_succ {σ k n : Int} (hσ : σ = 1 ∨ σ = -1) (hk : k < n) :
    Toward (a + σ * n) (a + σ * k) (a + σ * (k + 1)) := by
  unfold Toward
  cases hσ with
  | inl hσ =>
      subst hσ
      omega
  | inr hσ =>
      subst hσ
      omega

end Coordinate

-- ================================================================= the lines

section Lines

variable {p q e : Int × Int} {ps : List (Int × Int)}

/-- One step of a king at most, and no coordinate away from the end. -/
def StepTo (e p q : Int × Int) : Prop :=
  Toward e.1 p.1 q.1 ∧ Toward e.2 p.2 q.2

/-- `q` is in the box that `p` and `e` span. -/
def InBox (p e q : Int × Int) : Prop :=
  Between p.1 e.1 q.1 ∧ Between p.2 e.2 q.2

/-- The points lead from `p` to `e`. -/
structure Line (p e : Int × Int) (ps : List (Int × Int)) : Prop where
  head : ps.head? = some p
  last : ps.getLast? = some e
  chain : ps.IsChain (StepTo e)

theorem Line.point (p : Int × Int) : Line p p [p] :=
  ⟨rfl, rfl, List.isChain_singleton p⟩

/-- One step, and the line from there. -/
theorem Line.cons (h : StepTo e p q) (hl : Line q e ps) :
    Line p e (p :: ps) := by
  obtain ⟨hhead, hlast, hchain⟩ := hl
  cases ps with
  | nil => cases hhead
  | cons q' qs =>
      obtain rfl := Option.some.inj hhead
      refine ⟨rfl, ?_, List.isChain_cons_cons.mpr ⟨h, hchain⟩⟩
      rw [List.getLast?_cons_cons]
      exact hlast

/-- A chain of steps stays in the box. -/
theorem chain_box (h : (p :: ps).IsChain (StepTo e)) :
    ∀ r ∈ p :: ps, InBox p e r := by
  induction ps generalizing p with
  | nil =>
      intro r hr
      rw [List.mem_singleton.mp hr]
      exact ⟨between_left p.1 e.1, between_left p.2 e.2⟩
  | cons q qs ih =>
      obtain ⟨hstep, hrest⟩ := List.isChain_cons_cons.mp h
      intro r hr
      cases List.mem_cons.mp hr with
      | inl hp =>
          rw [hp]
          exact ⟨between_left p.1 e.1, between_left p.2 e.2⟩
      | inr hq =>
          obtain ⟨hcol, hrow⟩ := ih hrest r hq
          exact ⟨hstep.1.between hcol, hstep.2.between hrow⟩

theorem Line.box (h : Line p e ps) : ∀ r ∈ ps, InBox p e r := by
  obtain ⟨hhead, -, hchain⟩ := h
  cases ps with
  | nil => cases hhead
  | cons q qs =>
      obtain rfl := Option.some.inj hhead
      exact chain_box hchain

/-- The same line, with the coordinates exchanged. -/
theorem Line.swap (h : Line p e ps) :
    Line p.swap e.swap (ps.map Prod.swap) := by
  refine ⟨?_, ?_, ?_⟩
  · rw [List.head?_map, h.head]
    rfl
  · rw [List.getLast?_map, h.last]
    rfl
  · rw [List.isChain_map]
    exact h.chain.imp fun p q hstep => ⟨hstep.2, hstep.1⟩

end Lines

-- ============================================================ the error term

/-- Where the walk is, along the longer and the shorter side, and its error
term. -/
structure Turn where
  long : Int
  short : Int
  slack : Int
deriving DecidableEq

section Walk

variable {a b σ τ n m k : Int} {t : Turn}

/-- The point of a turn. -/
def Turn.point (t : Turn) : Int × Int := (t.long, t.short)

/-- One step along the longer side, of length `n`, and along the shorter
one, of length `m`, where the term is less than that. -/
def Turn.next (σ τ n m : Int) (t : Turn) : Turn :=
  if t.slack < m then ⟨t.long + σ, t.short + τ, t.slack - m + n⟩
  else ⟨t.long + σ, t.short, t.slack - m⟩

theorem Turn.next_rise (h : t.slack < m) :
    t.next σ τ n m = ⟨t.long + σ, t.short + τ, t.slack - m + n⟩ := if_pos h

theorem Turn.next_level (h : ¬ t.slack < m) :
    t.next σ τ n m = ⟨t.long + σ, t.short, t.slack - m⟩ := if_neg h

/-- The turns from `t` on, `d` of them before the last. -/
def walk (σ τ n m : Int) : Nat → Turn → List Turn
  | 0, t => [t]
  | d + 1, t => t :: walk σ τ n m d (t.next σ τ n m)

/-- The turn after `k` steps from `(a, b)`. -/
structure Turn.At (a b σ τ n m k : Int) (t : Turn) : Prop where
  low : 0 ≤ t.slack
  high : t.slack < n
  long : t.long = a + σ * k
  short : ∃ r, t.short = b + τ * r ∧ t.slack + k * m = n / 2 + n * r

theorem Turn.at_zero (hn : 0 < n) :
    Turn.At a b σ τ n m 0 ⟨a, b, n / 2⟩ := by
  refine ⟨?_, ?_, ?_, 0, ?_, ?_⟩
  · show 0 ≤ n / 2
    omega
  · show n / 2 < n
    omega
  · rw [Int.mul_zero, Int.add_zero]
  · rw [Int.mul_zero, Int.add_zero]
  · rw [Int.zero_mul, Int.mul_zero]

/-- The steps along the shorter side are no more than it is long. -/
theorem rises_le {r s : Int} (hm : 0 ≤ m) (hlow : 0 ≤ s) (hhigh : s < n)
    (hk : 0 ≤ k) (hkn : k ≤ n) (heq : s + k * m = n / 2 + n * r) :
    0 ≤ r ∧ r ≤ m := by
  have hkm : k * m ≤ n * m := Int.mul_le_mul_of_nonneg_right hkn hm
  have hkm0 : 0 ≤ k * m := Int.mul_nonneg hk hm
  constructor
  · by_contra hneg
    have hprod : n * r ≤ n * (-1) :=
      Int.mul_le_mul_of_nonneg_left (by omega) (by omega)
    omega
  · by_contra hover
    have hprod : n * (m + 1) ≤ n * r :=
      Int.mul_le_mul_of_nonneg_left (by omega) (by omega)
    rw [Int.mul_add, Int.mul_one] at hprod
    omega

theorem Turn.At.next (h : Turn.At a b σ τ n m k t) (hm : 0 ≤ m)
    (hmn : m ≤ n) : Turn.At a b σ τ n m (k + 1) (t.next σ τ n m) := by
  obtain ⟨hlow, hhigh, hlong, r, hshort, heq⟩ := h
  have hlong' : t.long + σ = a + σ * (k + 1) := by
    rw [hlong]
    ring
  have hkm : (k + 1) * m = k * m + m := by ring
  by_cases hrise : t.slack < m
  · rw [next_rise hrise]
    refine ⟨?_, ?_, hlong', r + 1, ?_, ?_⟩
    · dsimp only
      omega
    · dsimp only
      omega
    · dsimp only
      rw [hshort]
      ring
    · have hnr : n * (r + 1) = n * r + n := by ring
      dsimp only
      omega
  · rw [next_level hrise]
    refine ⟨?_, ?_, hlong', r, hshort, ?_⟩
    · dsimp only
      omega
    · dsimp only
      omega
    · dsimp only
      omega

/-- At the end of the longer side it is at the end of the shorter one. -/
theorem Turn.At.last (h : Turn.At a b σ τ n m n t) :
    t.point = (a + σ * n, b + τ * m) := by
  obtain ⟨hlow, hhigh, hlong, r, hshort, heq⟩ := h
  have hprod : n * (r - m) = t.slack - n / 2 := by
    rw [Int.mul_sub]
    omega
  have hr : r = m := by
    -- a multiple of `n` that is less than `n` away from nought
    by_contra hne
    have hmul : n * 1 ≤ n * (r - m) ∨ n * (r - m) ≤ n * (-1) := by
      by_cases hlt : m < r
      · exact Or.inl (Int.mul_le_mul_of_nonneg_left (by omega) (by omega))
      · exact Or.inr (Int.mul_le_mul_of_nonneg_left (by omega) (by omega))
    omega
  unfold Turn.point
  rw [hlong, hshort, hr]

/-- Before the end of the longer side it is somewhere else. -/
theorem Turn.At.not_last (h : Turn.At a b σ τ n m k t) (hσ : σ = 1 ∨ σ = -1)
    (hkn : k < n) : t.point ≠ (a + σ * n, b + τ * m) := by
  intro heq
  have hlong : t.long = a + σ * n := congrArg Prod.fst heq
  rw [h.long] at hlong
  cases hσ with
  | inl hσ =>
      subst hσ
      omega
  | inr hσ =>
      subst hσ
      omega

/-- Each step is towards the end. -/
theorem Turn.At.toward (h : Turn.At a b σ τ n m k t) (hm : 0 ≤ m)
    (hmn : m ≤ n) (hσ : σ = 1 ∨ σ = -1) (hτ : τ = 1 ∨ τ = -1)
    (hk : 0 ≤ k) (hkn : k < n) :
    StepTo (a + σ * n, b + τ * m) t.point (t.next σ τ n m).point := by
  have hnext := h.next hm hmn
  have hlong := h.long
  obtain ⟨-, -, -, r, hshort, heq⟩ := h
  refine ⟨?_, ?_⟩
  · have hlong' : (t.next σ τ n m).long = a + σ * (k + 1) := hnext.long
    show Toward (a + σ * n) t.long (t.next σ τ n m).long
    rw [hlong, hlong']
    exact toward_succ hσ hkn
  · show Toward (b + τ * m) t.short (t.next σ τ n m).short
    by_cases hrise : t.slack < m
    · rw [next_rise hrise] at hnext ⊢
      have heq' : t.slack - m + n + (k + 1) * m = n / 2 + n * (r + 1) := by
        rw [Int.add_mul, Int.mul_add]
        omega
      have hle := rises_le hm hnext.low hnext.high (by omega)
        (by omega : k + 1 ≤ n) heq'
      have hshort' : t.short + τ = b + τ * (r + 1) := by
        rw [hshort]
        ring
      dsimp only
      rw [hshort', hshort]
      exact toward_succ hτ (by omega)
    · rw [next_level hrise]
      exact Or.inl rfl

/-- The walk ends where the two sides end, in steps towards that point. -/
theorem walk_line (hm : 0 ≤ m) (hmn : m ≤ n) (hσ : σ = 1 ∨ σ = -1)
    (hτ : τ = 1 ∨ τ = -1) (d : Nat) (h : Turn.At a b σ τ n m k t)
    (hk : 0 ≤ k) (hd : k + d = n) :
    Line t.point (a + σ * n, b + τ * m)
      ((walk σ τ n m d t).map Turn.point) := by
  induction d generalizing k t with
  | zero =>
      obtain rfl : k = n := by omega
      rw [← h.last]
      exact Line.point t.point
  | succ d ih =>
      have hstep := h.toward hm hmn hσ hτ hk (by omega)
      exact (ih (h.next hm hmn) (by omega) (by omega)).cons hstep

theorem walk_length (σ τ n m : Int) (d : Nat) (t : Turn) :
    (walk σ τ n m d t).length = d + 1 := by
  induction d generalizing t with
  | zero => rfl
  | succ d ih =>
      show (walk σ τ n m d _).length + 1 = d + 1 + 1
      rw [ih]

/-- The error term stays within the longer side. -/
theorem walk_slack (hm : 0 ≤ m) (hmn : m ≤ n) (d : Nat)
    (h : Turn.At a b σ τ n m k t) :
    ∀ u ∈ walk σ τ n m d t, 0 ≤ u.slack ∧ u.slack < n := by
  induction d generalizing k t with
  | zero =>
      intro u hu
      rw [List.mem_singleton.mp hu]
      exact ⟨h.low, h.high⟩
  | succ d ih =>
      intro u hu
      cases List.mem_cons.mp hu with
      | inl ht =>
          rw [ht]
          exact ⟨h.low, h.high⟩
      | inr hrest => exact ih (h.next hm hmn) u hrest

end Walk

-- ========================================================== interpolation

section Interpolation

variable {a b n i : Int}

/-- `i` of `n` parts of the way from `a` to `b`. -/
def between (a b n i : Int) : Int := a + ((b - a) * i).tdiv n

theorem between_zero (a b n : Int) : between a b n 0 = a := by
  unfold between
  rw [Int.mul_zero, Int.zero_tdiv, Int.add_zero]

theorem between_self (hn : n ≠ 0) : between a b n n = b := by
  unfold between
  rw [Int.mul_tdiv_cancel _ hn]
  omega

/-- A quotient that grows by at most one, up to `d`. -/
theorem quotient_succ {d : Int} (hd : 0 ≤ d) (hdn : d ≤ n) (hn : 0 < n)
    (hin : i < n) :
    d * (i + 1) / n = d * i / n
      ∨ (d * i / n < d ∧ d * (i + 1) / n = d * i / n + 1) := by
  have hsum : d * (i + 1) = d * i + d := by ring
  have hmono : d * i / n ≤ d * (i + 1) / n :=
    Int.ediv_le_ediv hn (by omega)
  have hnext : d * (i + 1) / n ≤ d * i / n + 1 := by
    rw [← Int.add_mul_ediv_right _ 1 (by omega : n ≠ 0)]
    exact Int.ediv_le_ediv hn (by omega)
  have hend : d * (i + 1) / n ≤ d := by
    rw [Int.ediv_le_iff_le_mul hn]
    have hprod : d * (i + 1) ≤ d * n :=
      Int.mul_le_mul_of_nonneg_left (by omega) hd
    omega
  omega

theorem between_toward (hn : 0 < n) (hab : |b - a| ≤ n) (hi : 0 ≤ i)
    (hin : i < n) :
    Toward b (between a b n i) (between a b n (i + 1)) := by
  rw [abs_le] at hab
  unfold between Toward
  by_cases hup : a ≤ b
  · have hprod : 0 ≤ (b - a) * i := Int.mul_nonneg (by omega) hi
    have hprod' : 0 ≤ (b - a) * (i + 1) :=
      Int.mul_nonneg (by omega) (by omega)
    rw [Int.tdiv_eq_ediv_of_nonneg hprod, Int.tdiv_eq_ediv_of_nonneg hprod']
    have hstep := quotient_succ (d := b - a) (by omega) hab.2 hn hin
    omega
  · -- downwards, the quotients are those of the way up, negated
    have hneg : ∀ j, ((b - a) * j).tdiv n = -(((a - b) * j).tdiv n) := by
      intro j
      rw [← Int.neg_tdiv]
      congr 1
      ring
    have hprod : 0 ≤ (a - b) * i := Int.mul_nonneg (by omega) hi
    have hprod' : 0 ≤ (a - b) * (i + 1) :=
      Int.mul_nonneg (by omega) (by omega)
    rw [hneg, hneg, Int.tdiv_eq_ediv_of_nonneg hprod,
      Int.tdiv_eq_ediv_of_nonneg hprod']
    have hstep := quotient_succ (d := a - b) (by omega) (by omega) hn hin
    omega

/-- The points at `0, …, n` of `n` parts of the way. -/
def interpolate (p e : Int × Int) (n : Nat) : List (Int × Int) :=
  (List.range (n + 1)).map fun (i : Nat) =>
    (between p.1 e.1 n i, between p.2 e.2 n i)

theorem interpolate_line {p e : Int × Int} {n : Nat} (hn : 0 < n)
    (hcol : |e.1 - p.1| ≤ n) (hrow : |e.2 - p.2| ≤ n) :
    Line p e (interpolate p e n) := by
  have hne : (n : Int) ≠ 0 := by omega
  unfold interpolate
  refine ⟨?_, ?_, ?_⟩
  · rw [List.head?_map, List.head?_range, if_neg (Nat.succ_ne_zero n)]
    show some (between p.1 e.1 n 0, between p.2 e.2 n 0) = some p
    rw [between_zero, between_zero]
  · rw [List.range_succ, List.map_append, List.getLast?_append]
    show some (between p.1 e.1 n n, between p.2 e.2 n n) = some e
    rw [between_self hne, between_self hne]
  · rw [List.isChain_map, ← Nat.succ_eq_add_one, List.isChain_range_succ]
    intro i hi
    refine ⟨?_, ?_⟩
    · exact between_toward (by omega) hcol (by omega) (by omega)
    · exact between_toward (by omega) hrow (by omega) (by omega)

end Interpolation

end DigitalLine
