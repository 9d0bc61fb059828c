/-
Rings with a cycle bit: a producer writes items at successive slots of a
circular array and stamps each with the parity of its lap, so a consumer
at any position tells a new item from one of the lap before without
seeing the producer's index.

Items are numbered from 0 and never wrap; on a ring of `m` slots item `k`
lies at `k % m` and carries `lap m k`, which is 1 on the first lap. A
party that keeps an index and a bit and flips the bit at the wrap keeps
`k % m` and `lap m k` (`step_index`).

`Laid` says what the array holds after the items `xs`: the last `m` of
them, each under its bit, and nothing where no item has come yet. A push
keeps it (`Laid.push`), and a consumer that is at most a lap behind finds
its bit exactly when an item waits there (`Laid.bit_iff`), and then the
item is the next one (`Laid.get`).
-/
import Mathlib

namespace CycleRing

-- ============================================================== the laps

/-- The bit that item `k` carries. -/
def lap (m k : Nat) : Nat := (k / m + 1) % 2

theorem lap_lt (m k : Nat) : lap m k < 2 := Nat.mod_lt _ (by decide)

theorem lap_of_lt {m k : Nat} (hk : k < m) : lap m k = 1 := by
  unfold lap
  rw [Nat.div_eq_of_lt hk]

/-- A lap later the bit is the other one. -/
theorem lap_add {m : Nat} (hm : 0 < m) (k : Nat) :
    lap m (k + m) = 1 - lap m k := by
  unfold lap
  rw [Nat.add_div_right k hm]
  omega

theorem flip_lap (m k : Nat) : lap m k ^^^ 1 = 1 - lap m k := by
  have hlt := lap_lt m k
  generalize lap m k = b at *
  obtain rfl | rfl : b = 0 ∨ b = 1 := by omega
  · rfl
  · rfl

theorem lap_eq_of_div {m j k : Nat} (h : j / m = k / m) :
    lap m j = lap m k := by
  unfold lap
  rw [h]

/-- Inside a lap the index moves on and the bit stays. -/
theorem index_succ {m k : Nat} (hm : 0 < m) (hne : k % m + 1 ≠ m) :
    (k + 1) % m = k % m + 1 ∧ lap m (k + 1) = lap m k := by
  have hlt := Nat.mod_lt k hm
  have hk := Nat.div_add_mod k m
  have hsplit : k + 1 = k % m + 1 + m * (k / m) := by omega
  constructor
  · rw [hsplit, Nat.add_mul_mod_self_left, Nat.mod_eq_of_lt (by omega)]
  · refine lap_eq_of_div ?_
    rw [hsplit, Nat.add_mul_div_left _ _ hm, Nat.div_eq_of_lt (by omega),
      Nat.zero_add]

/-- At the end of a lap the index returns to 0 and the bit flips. -/
theorem index_wrap {m k : Nat} (hm : 0 < m) (heq : k % m + 1 = m) :
    (k + 1) % m = 0 ∧ lap m (k + 1) = 1 - lap m k := by
  have hk := Nat.div_add_mod k m
  have hsplit : k + 1 = m * (k / m + 1) := by rw [Nat.mul_add_one]; omega
  constructor
  · rw [hsplit, Nat.mul_mod_right]
  · unfold lap
    rw [hsplit, Nat.mul_div_cancel_left _ hm]
    omega

/-- How a party moves on: it counts its index up, and at the end of the
array returns to 0 and flips its bit. -/
theorem step_index {m k : Nat} (hm : 0 < m) :
    (if k % m + 1 = m then (0, lap m k ^^^ 1) else (k % m + 1, lap m k))
      = ((k + 1) % m, lap m (k + 1)) := by
  split
  · next heq =>
      obtain ⟨hidx, hlap⟩ := index_wrap hm heq
      rw [hidx, hlap, flip_lap]
  · next hne =>
      obtain ⟨hidx, hlap⟩ := index_succ hm hne
      rw [hidx, hlap]

/-- Two numbers less than a lap apart lie in different slots. -/
theorem slot_ne {m j k : Nat} (hjk : j < k) (hlap : k < j + m) :
    j % m ≠ k % m := by
  intro heq
  have hdvd : m ∣ k - j := (Nat.modEq_iff_dvd' (by omega)).mp heq
  have := Nat.le_of_dvd (by omega) hdvd
  omega

-- ========================================================== the contents

section Contents

variable {α β : Type*}

/-- The array of `m` slots after the items `xs`. `put x b` is what a slot
holds for an item under the bit `b`, `bit` reads the bit of a slot. -/
structure Laid (m : Nat) (put : α → Nat → β) (bit : β → Nat)
    (slot : Nat → β) (xs : List α) : Prop where
  recent : ∀ k (hk : k < xs.length), xs.length ≤ k + m →
    slot (k % m) = put xs[k] (lap m k)
  blank : ∀ i < m, xs.length ≤ i → bit (slot i) = 0

variable {m : Nat} {put : α → Nat → β} {bit : β → Nat}
  {slot slot' : Nat → β} {xs : List α}

theorem laid_nil (h : ∀ i < m, bit (slot i) = 0) :
    Laid m put bit slot ([] : List α) where
  recent k hk _ := absurd hk (Nat.not_lt_zero k)
  blank i hi _ := h i hi

/-- The next item goes into the slot of its number, under the bit of its
lap, and the other slots stay. -/
theorem Laid.push (h : Laid m put bit slot xs) (hm : 0 < m) (x : α)
    (hnew : slot' (xs.length % m) = put x (lap m xs.length))
    (hold : ∀ i < m, i ≠ xs.length % m → slot' i = slot i) :
    Laid m put bit slot' (xs ++ [x]) where
  recent k hk hlap := by
    rw [List.length_append, List.length_singleton] at hk hlap
    by_cases heq : k = xs.length
    · subst heq
      rw [hnew, List.getElem_concat_length rfl]
    · have hlt : k < xs.length := by omega
      rw [hold _ (Nat.mod_lt k hm) (slot_ne hlt (by omega)),
        h.recent k hlt (by omega), List.getElem_append_left hlt]
  blank i hi hlen := by
    rw [List.length_append, List.length_singleton] at hlen
    have hlt : xs.length < m := by omega
    have hne : i ≠ xs.length % m := by rw [Nat.mod_eq_of_lt hlt]; omega
    rw [hold i hi hne]
    exact h.blank i hi (by omega)

/-- A consumer that has taken `c` items, and is at most a lap behind,
sees its own bit exactly when an item waits for it. -/
theorem Laid.bit_iff (h : Laid m put bit slot xs) (hm : 0 < m)
    (hput : ∀ x b, b < 2 → bit (put x b) = b) {c : Nat}
    (hle : c ≤ xs.length) (hlap : xs.length ≤ c + m) :
    bit (slot (c % m)) = lap m c ↔ c < xs.length := by
  constructor
  · intro hbit
    by_contra hlt
    have heq : xs.length = c := by omega
    rcases Nat.lt_or_ge c m with hfirst | hlater
    · -- the slot has never been written
      rw [Nat.mod_eq_of_lt hfirst, h.blank c hfirst (by omega),
        lap_of_lt hfirst] at hbit
      exact absurd hbit (by decide)
    · -- the slot holds the item of the lap before
      obtain ⟨j, rfl⟩ : ∃ j, c = j + m := ⟨c - m, by omega⟩
      have hslot : slot ((j + m) % m) = put xs[j] (lap m j) := by
        rw [Nat.add_mod_right]
        exact h.recent j (by omega) (by omega)
      rw [hslot, hput _ _ (lap_lt m j), lap_add hm] at hbit
      have := lap_lt m j
      omega
  · intro hlt
    rw [h.recent c hlt hlap, hput _ _ (lap_lt m c)]

/-- What a consumer finds where an item waits. -/
theorem Laid.get (h : Laid m put bit slot xs) {c : Nat}
    (hlt : c < xs.length) (hlap : xs.length ≤ c + m) :
    slot (c % m) = put xs[c] (lap m c) :=
  h.recent c hlt hlap

/-- Slots read in order, by numbers that are short of the items' own by a
whole number of laps, give the items in order. -/
theorem Laid.window {f : α → β} (h : Laid m (fun x _ => f x) bit slot xs)
    {o s r : Nat} (ho : m ∣ o) (hlen : o + r = xs.length) (hs : s ≤ r)
    (hr : r ≤ s + m) :
    (List.range' s (r - s)).map (fun i => slot (i % m))
      = (xs.drop (o + s)).map f := by
  apply List.ext_getElem
  · simp
    omega
  · intro i hi hi'
    have hlt : i < r - s := by simpa using hi
    have hslot : (s + i) % m = (o + s + i) % m := by
      obtain ⟨k, rfl⟩ := ho
      rw [Nat.add_assoc (m * k), Nat.mul_add_mod]
    have hitem := h.get (c := o + s + i) (by omega) (by omega)
    simp [hslot, hitem]

end Contents

end CycleRing
