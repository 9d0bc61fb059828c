/-
Fixed-size tables: a list read with a default and written in place. The
length never changes, so a slot index stays valid across every update,
and a first-match search is characterised slot by slot.
-/
import Mathlib

namespace Table

variable {α : Type*} {d : α}

/-- Slot `i` of the table, `d` outside it. -/
def slot (d : α) (l : List α) (i : Nat) : α := l.getD i d

theorem slot_eq_getElem {l : List α} {i : Nat} (h : i < l.length) :
    slot d l i = l[i] := by
  simp [slot, h]

theorem slot_of_le {l : List α} {i : Nat} (h : l.length ≤ i) :
    slot d l i = d := by
  simp [slot, List.getElem?_eq_none h]

theorem slot_set_self {l : List α} {i : Nat} (h : i < l.length) (x : α) :
    slot d (l.set i x) i = x := by
  simp [slot, h]

theorem slot_set_ne {l : List α} {i j : Nat} (h : j ≠ i) (x : α) :
    slot d (l.set i x) j = slot d l j := by
  simp [slot, List.getElem?_set_ne (Ne.symm h)]

theorem mem_iff_slot {l : List α} {x : α} :
    x ∈ l ↔ ∃ i < l.length, slot d l i = x := by
  rw [List.mem_iff_getElem]
  refine ⟨fun h => ?_, fun h => ?_⟩
  · obtain ⟨i, hi, hx⟩ := h
    exact ⟨i, hi, (slot_eq_getElem hi).trans hx⟩
  · obtain ⟨i, hi, hx⟩ := h
    exact ⟨i, hi, (slot_eq_getElem hi).symm.trans hx⟩

/-- A search from slot 0 finds the first slot satisfying `p`. -/
theorem findIdx_eq_some_iff {l : List α} {p : α → Bool} {i : Nat} :
    l.findIdx? p = some i
      ↔ i < l.length ∧ p (slot d l i) = true
        ∧ ∀ j < i, p (slot d l j) = false := by
  rw [List.findIdx?_eq_some_iff_getElem]
  refine ⟨fun h => ?_, fun h => ?_⟩
  · obtain ⟨hi, hp, hmin⟩ := h
    refine ⟨hi, by rw [slot_eq_getElem hi]; exact hp, fun j hj => ?_⟩
    rw [slot_eq_getElem (Nat.lt_trans hj hi)]
    simpa using hmin j hj
  · obtain ⟨hi, hp, hmin⟩ := h
    refine ⟨hi, by rw [← slot_eq_getElem (d := d) hi]; exact hp,
      fun j hj => ?_⟩
    rw [← slot_eq_getElem (d := d) (Nat.lt_trans hj hi)]
    simpa using hmin j hj

/-- A search fails exactly when no slot satisfies `p`. -/
theorem findIdx_eq_none_iff {l : List α} {p : α → Bool} :
    l.findIdx? p = none ↔ ∀ i < l.length, p (slot d l i) = false := by
  rw [List.findIdx?_eq_none_iff]
  refine ⟨fun h i hi => h _ (mem_iff_slot.mpr ⟨i, hi, rfl⟩),
    fun h x hx => ?_⟩
  obtain ⟨i, hi, rfl⟩ := mem_iff_slot (d := d).mp hx
  exact h i hi

/-- A table filled from the front. -/
theorem countP_eq_of_front {l : List α} {p : α → Bool} {k : Nat}
    (hk : k ≤ l.length)
    (hp : ∀ i < l.length, p (slot d l i) = true ↔ i < k) :
    l.countP p = k := by
  induction l generalizing k with
  | nil => exact (Nat.le_zero.mp hk).symm
  | cons x l ih =>
      have hhead : p x = true ↔ 0 < k := by
        simpa [slot] using hp 0 (by simp)
      have htail : l.countP p = k - 1 := by
        refine ih (by simpa using hk) fun i hi => ?_
        have hi' := hp (i + 1) (by simpa using hi)
        simp only [slot, List.getD_cons_succ] at hi'
        rw [slot, hi']
        omega
      rw [List.countP_cons, htail]
      by_cases hx : p x = true
      · have hpos := hhead.mp hx
        simp only [hx, if_true]
        omega
      · have hzero := mt hhead.mpr hx
        simp only [hx, Bool.false_eq_true, if_false]
        omega

end Table
