/-
Numerals: numbers written as digits in a base, and read back.

A numeral is a list of digits, the most significant first, as it is
printed and read. `value` is what a reader computes who multiplies by the
base and adds, `numeral` what is printed: no zero in front, and one zero
for 0. A printer finds the digits the other way round, dividing by the
base until nothing is left (`divided`), and pads with zeros, which do not
count (`value_zeros`). A reader in words of a limited size reads the value
modulo that size (`foldl_wrap`).
-/
import Mathlib

namespace Numeral

variable {α : Type*}

-- ================================================================ the value

/-- The number that the digits denote. -/
def value (b : Nat) (ds : List Nat) : Nat := ds.foldl (fun v d => v * b + d) 0

@[simp] theorem value_nil (b : Nat) : value b [] = 0 := rfl

/-- Mathlib's digits come least first. -/
theorem value_reverse (b : Nat) (ds : List Nat) :
    value b ds.reverse = Nat.ofDigits b ds := by
  unfold value
  rw [List.foldl_reverse]
  induction ds with
  | nil => rfl
  | cons d ds ih =>
      rw [List.foldr_cons, ih, Nat.ofDigits_cons, Nat.mul_comm, Nat.add_comm]

/-- One more digit. -/
theorem value_concat (b : Nat) (ds : List Nat) (d : Nat) :
    value b (ds ++ [d]) = value b ds * b + d := by
  unfold value
  rw [List.foldl_append]
  rfl

/-- Zeros in front do not count. -/
theorem value_zeros (b k : Nat) (ds : List Nat) :
    value b (List.replicate k 0 ++ ds) = value b ds := by
  have hzeros : value b (List.replicate k 0) = 0 := by
    induction k with
    | zero => rfl
    | succ k ih =>
        rw [List.replicate_succ', value_concat, ih, Nat.zero_mul]
  unfold value at hzeros ⊢
  rw [List.foldl_append, hzeros]

/-- A reader whose words wrap modulo `m`. -/
theorem foldl_wrap (b m : Nat) (ds : List Nat) (v : Nat) :
    ds.foldl (fun v d => (v * b + d) % m) (v % m)
      = ds.foldl (fun v d => v * b + d) v % m := by
  induction ds generalizing v with
  | nil => rfl
  | cons d ds ih =>
      have hstep : (v % m * b + d) % m = (v * b + d) % m :=
        (((Nat.mod_modEq v m).mul_right b).add_right d)
      rw [List.foldl_cons, List.foldl_cons, hstep]
      exact ih (v * b + d)

-- ============================================================== the numeral

/-- The digits of a number, as they are printed. -/
def numeral (b n : Nat) : List Nat :=
  if n = 0 then [0] else (Nat.digits b n).reverse

theorem value_numeral (b n : Nat) : value b (numeral b n) = n := by
  unfold numeral
  split
  · next hzero => simp [hzero, value]
  · rw [value_reverse, Nat.ofDigits_digits]

theorem numeral_ne_nil (b n : Nat) : numeral b n ≠ [] := by
  unfold numeral
  split
  · exact List.cons_ne_nil 0 []
  · next hn =>
      rw [Ne, List.reverse_eq_nil_iff]
      exact Nat.digits_ne_nil_iff_ne_zero.mpr hn

theorem numeral_lt {b n d : Nat} (hb : 1 < b) (hd : d ∈ numeral b n) :
    d < b := by
  unfold numeral at hd
  split at hd
  · rw [List.mem_singleton.mp hd]
    exact Nat.zero_lt_of_lt hb
  · exact Nat.digits_lt_base hb (List.mem_reverse.mp hd)

/-- A numeral of the value `n` has no zero in front, unless it is `0`. -/
theorem numeral_head {b n : Nat} (h : (numeral b n).head? = some 0) :
    numeral b n = [0] := by
  unfold numeral at h ⊢
  split
  · rfl
  · next hn =>
      rw [if_neg hn, List.head?_reverse] at h
      have hne : Nat.digits b n ≠ [] := Nat.digits_ne_nil_iff_ne_zero.mpr hn
      rw [List.getLast?_eq_some_getLast hne] at h
      exact absurd (Option.some.inj h) (Nat.getLast_digit_ne_zero b hn)

theorem numeral_length_le {b n k : Nat} (hb : 1 < b) (hk : 0 < k)
    (hn : n < b ^ k) : (numeral b n).length ≤ k := by
  unfold numeral
  split
  · exact hk
  · rw [List.length_reverse]
    exact (Nat.digits_length_le_iff hb n).mpr hn

-- ============================================================== the printer

/-- The digits of `n` found by division, the least first, each as `f` has
it. -/
def divided (f : Nat → α) (b : Nat) : Nat → Nat → List α
  | 0, _ => []
  | fuel + 1, n =>
      if n = 0 then [] else f (n % b) :: divided f b fuel (n / b)

/-- With a turn for each digit, it ends with all of them. -/
theorem divided_eq (f : Nat → α) {b fuel n : Nat} (hb : 1 < b)
    (hn : n < b ^ fuel) :
    divided f b fuel n = (Nat.digits b n).map f := by
  induction fuel generalizing n with
  | zero =>
      have hzero : n = 0 := by simpa using hn
      subst hzero
      simp [divided]
  | succ fuel ih =>
      unfold divided
      split
      · next hzero => rw [hzero, Nat.digits_zero, List.map_nil]
      · next hne =>
          have hrest : n / b < b ^ fuel := by
            apply Nat.div_lt_of_lt_mul
            rw [Nat.mul_comm, ← Nat.pow_succ]
            exact hn
          rw [ih hrest, Nat.digits_def' hb (Nat.pos_of_ne_zero hne),
            List.map_cons]

/-- Printed in the right order. -/
theorem divided_reverse (f : Nat → α) {b fuel n : Nat} (hb : 1 < b)
    (hn : n < b ^ fuel) (hne : n ≠ 0) :
    (divided f b fuel n).reverse = (numeral b n).map f := by
  unfold numeral
  rw [divided_eq f hb hn, if_neg hne, List.map_reverse]

end Numeral
