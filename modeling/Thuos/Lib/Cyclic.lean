/-
A cycle of `n` positions scanned from a moving origin.

`gap n a b` counts the steps forward from `a` to `b`; `scan n c p` is the
first position satisfying `p` in the order `c, c + 1, …` around the
cycle. The scan finds the satisfying position of least gap
(`scan_eq_some_iff`), and moving the origin just behind what it found
shortens the gap to every other satisfying position
(`gap_after_scan`). That is the measure of every round-robin argument.
-/
import Mathlib

namespace Cyclic

/-- Steps forward from `a` to `b` on a cycle of `n` positions. -/
def gap (n a b : Nat) : Nat := (b + (n - a)) % n

theorem gap_eq {n a b : Nat} (ha : a < n) (hb : b < n) :
    gap n a b = if a ≤ b then b - a else b + n - a := by
  unfold gap
  split
  · rw [show b + (n - a) = (b - a) + n from by omega, Nat.add_mod_right,
      Nat.mod_eq_of_lt (by omega)]
  · rw [Nat.mod_eq_of_lt (by omega)]
    omega

theorem gap_lt {n a b : Nat} (hn : 0 < n) : gap n a b < n :=
  Nat.mod_lt _ hn

/-- The gap is the number of steps: walking it from `a` arrives at `b`. -/
theorem walk_gap {n a b : Nat} (ha : a < n) (hb : b < n) :
    (a + gap n a b) % n = b := by
  rw [gap_eq ha hb]
  split
  · rw [Nat.add_sub_cancel' ‹a ≤ b›, Nat.mod_eq_of_lt hb]
  · rw [show a + (b + n - a) = b + n from by omega, Nat.add_mod_right,
      Nat.mod_eq_of_lt hb]

/-- Walking `k < n` steps from `a` opens a gap of `k`. -/
theorem gap_walk {n a k : Nat} (ha : a < n) (hk : k < n) :
    gap n a ((a + k) % n) = k := by
  have hb : (a + k) % n < n := Nat.mod_lt _ (by omega)
  rw [gap_eq ha hb]
  by_cases h : a + k < n
  · rw [Nat.mod_eq_of_lt h, if_pos (by omega)]
    omega
  · have hmod : (a + k) % n = a + k - n := by
      rw [Nat.mod_eq_sub_mod (by omega), Nat.mod_eq_of_lt (by omega)]
    rw [hmod, if_neg (by omega)]
    omega

/-- The first position satisfying `p`, scanning once around the cycle
from `c`. -/
def scan (n c : Nat) (p : Nat → Bool) : Option Nat :=
  ((List.range n).map fun k => (c + k) % n).find? p

/-- The scan finds exactly the satisfying position of least gap. -/
theorem scan_eq_some_iff {n c : Nat} {p : Nat → Bool} (hc : c < n) {i : Nat} :
    scan n c p = some i
      ↔ i < n ∧ p i = true ∧ ∀ j < n, p j = true → gap n c i ≤ gap n c j := by
  unfold scan
  rw [List.find?_map, Option.map_eq_some_iff]
  constructor
  · rintro ⟨k, hk, rfl⟩
    obtain ⟨hpk, hkn, hmin⟩ := List.find?_range_eq_some.mp hk
    have hkn' : k < n := List.mem_range.mp hkn
    refine ⟨Nat.mod_lt _ (by omega), hpk, fun j hj hpj => ?_⟩
    rw [gap_walk hc hkn']
    by_contra hlt
    have := hmin (gap n c j) (by omega)
    simp [walk_gap hc hj, hpj] at this
  · rintro ⟨hi, hpi, hmin⟩
    refine ⟨gap n c i, List.find?_range_eq_some.mpr ⟨?_, ?_, ?_⟩,
      walk_gap hc hi⟩
    · simpa [walk_gap hc hi] using hpi
    · exact List.mem_range.mpr (gap_lt (by omega))
    · intro k hk
      have hkn : k < n := Nat.lt_trans hk (gap_lt (by omega))
      by_contra hpk
      have hle := hmin ((c + k) % n) (Nat.mod_lt _ (by omega))
        (by simpa using hpk)
      rw [gap_walk hc hkn] at hle
      omega

/-- The scan fails exactly when nothing satisfies `p`. -/
theorem scan_eq_none_iff {n c : Nat} {p : Nat → Bool}
    (hc : 0 < n → c < n) : scan n c p = none ↔ ∀ j < n, p j = false := by
  unfold scan
  rw [List.find?_eq_none]
  constructor
  · intro h j hj
    have hmem : j ∈ (List.range n).map fun k => (c + k) % n :=
      List.mem_map.mpr ⟨gap n c j, List.mem_range.mpr (gap_lt (by omega)),
        walk_gap (hc (by omega)) hj⟩
    simpa using h j hmem
  · intro h x hx
    obtain ⟨k, hk, rfl⟩ := List.mem_map.mp hx
    have hn : 0 < n := by have := List.mem_range.mp hk; omega
    simp [h _ (Nat.mod_lt (c + k) hn)]

/-- Putting the origin just behind the scanned position `i` leaves a
target `t ≠ i` that was no nearer than `i` one step closer than `i`
is. -/
theorem gap_after_scan {n c i t : Nat} (hc : c < n) (hi : i < n) (ht : t < n)
    (hle : gap n c i ≤ gap n c t) (hne : i ≠ t) :
    gap n ((i + 1) % n) t + 1 = gap n i t ∧ gap n i t ≤ gap n c t := by
  have hi' : (i + 1) % n < n := Nat.mod_lt _ (by omega)
  rw [gap_eq hi' ht, gap_eq hi ht]
  rw [gap_eq hc hi, gap_eq hc ht] at hle
  rw [gap_eq hc ht]
  by_cases hlast : i + 1 = n
  · rw [hlast, Nat.mod_self]
    constructor <;> split_ifs at * <;> omega
  · rw [Nat.mod_eq_of_lt (by omega)]
    constructor <;> split_ifs at * <;> omega

-- ================================================== the cycle as a list

/-- The positions in scanning order. -/
def order (n c : Nat) : List Nat := (List.range n).rotate c

theorem order_eq_map (n c : Nat) :
    order n c = (List.range n).map fun k => (c + k) % n := by
  unfold order
  refine List.ext_getElem (by simp) fun k hk hk' => ?_
  rw [List.getElem_rotate, List.getElem_map, List.getElem_range,
    List.getElem_range, List.length_range, Nat.add_comm]

/-- The scan takes the head of what satisfies `p`, in scanning order. -/
theorem scan_eq_head (n c : Nat) (p : Nat → Bool) :
    scan n c p = ((order n c).filter p).head? := by
  unfold scan
  rw [order_eq_map, List.head?_filter]

theorem mem_order {n c i : Nat} : i ∈ order n c ↔ i < n := by
  unfold order
  rw [List.mem_rotate, List.mem_range]

theorem order_mod (n c : Nat) : order n (c % n) = order n c := by
  have hmod := List.rotate_mod (List.range n) c
  rw [List.length_range] at hmod
  exact hmod

/-- Behind a position, it comes last, and what came before it comes after
the rest. -/
theorem order_after {n c i : Nat} {xs ys : List Nat}
    (h : order n c = xs ++ i :: ys) : order n (i + 1) = ys ++ xs ++ [i] := by
  have hlen : xs.length < n := by
    have hl := congrArg List.length h
    rw [order, List.length_rotate, List.length_range, List.length_append,
      List.length_cons] at hl
    omega
  have hi : i = (c + xs.length) % n := by
    have hget : (order n c)[xs.length]? = some i := by
      rw [h, List.getElem?_append_right (Nat.le_refl _), Nat.sub_self]
      rfl
    rw [order_eq_map, List.getElem?_map, List.getElem?_range hlen] at hget
    exact (Option.some.inj hget).symm
  have hmod : order n (i + 1) = order n (c + (xs.length + 1)) := by
    rw [← order_mod n (i + 1), ← order_mod n (c + (xs.length + 1)), hi,
      Nat.mod_add_mod]
    rfl
  have hrot : order n (c + (xs.length + 1))
      = (order n c).rotate (xs.length + 1) := by
    unfold order
    rw [List.rotate_rotate]
  have hsplit : order n c = (xs ++ [i]) ++ ys := by
    rw [h, List.append_assoc]
    rfl
  rw [hmod, hrot, hsplit, show xs.length + 1 = (xs ++ [i]).length by simp,
    List.rotate_append_length_eq, List.append_assoc]

end Cyclic
