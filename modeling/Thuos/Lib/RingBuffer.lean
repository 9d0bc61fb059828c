/-
Ring buffers with one slot unused: a queue of fewer than `m` items in a
circular array of `m` slots, between the index of its first item and the
index of the first free slot. The indices are equal when the queue is
empty, and one slot apart the other way round when it is full, so nothing
counts the items.

`Holds` says that the array holds the queue. A push at the free slot and a
pop at the first item keep it, each moving one index on by one.
-/
import Mathlib

namespace RingBuffer

variable {α : Type*}

/-- The array holds `q` from the index `tail` on, and `head` is the index
behind it. -/
structure Holds (m : Nat) (slot : Nat → α) (head tail : Nat) (q : List α) :
    Prop where
  tail_lt : tail < m
  room : q.length < m
  head_eq : head = (tail + q.length) % m
  items : ∀ i (hi : i < q.length), slot ((tail + i) % m) = q[i]

variable {m : Nat} {slot : Nat → α} {head tail : Nat} {q : List α}

theorem holds_nil (h : tail < m) : Holds m slot tail tail [] where
  tail_lt := h
  room := Nat.zero_lt_of_lt h
  head_eq := (Nat.mod_eq_of_lt h).symm
  items i hi := absurd hi (Nat.not_lt_zero i)

/-- Offsets less than a lap apart are different slots. -/
theorem offset_inj {i j : Nat} (hi : i < m) (hj : j < m)
    (h : (tail + i) % m = (tail + j) % m) : i = j := by
  have hmod : i ≡ j [MOD m] := Nat.ModEq.add_left_cancel' tail h
  exact hmod.eq_of_lt_of_lt hi hj

/-- The array holds nothing exactly when the indices meet. -/
theorem Holds.empty_iff (h : Holds m slot head tail q) :
    head = tail ↔ q = [] := by
  have htail : tail = (tail + 0) % m := (Nat.mod_eq_of_lt h.tail_lt).symm
  constructor
  · intro heq
    have hsame : (tail + q.length) % m = (tail + 0) % m := by
      rw [← h.head_eq, heq]
      exact htail
    apply List.length_eq_zero_iff.mp
    exact offset_inj h.room (Nat.zero_lt_of_lt h.room) hsame
  · rintro rfl
    rw [h.head_eq]
    exact htail.symm

/-- The array is full exactly when another push would make them meet. -/
theorem Holds.full_iff (h : Holds m slot head tail q) :
    (head + 1) % m = tail ↔ q.length + 1 = m := by
  have hroom := h.room
  have hnext : (head + 1) % m = (tail + (q.length + 1)) % m := by
    rw [h.head_eq, Nat.mod_add_mod, Nat.add_assoc]
  rw [hnext]
  constructor
  · intro heq
    by_contra hne
    have hsame : (tail + (q.length + 1)) % m = (tail + 0) % m := by
      rw [heq, Nat.add_zero, Nat.mod_eq_of_lt h.tail_lt]
    have hzero := offset_inj (by omega) (by omega) hsame
    omega
  · intro hfull
    rw [hfull, Nat.add_mod_right, Nat.mod_eq_of_lt h.tail_lt]

/-- A push, where there is room for one more. -/
theorem Holds.push (h : Holds m slot head tail q) (hroom : q.length + 1 < m)
    (x : α) :
    Holds m (Function.update slot head x) ((head + 1) % m) tail
      (q ++ [x]) where
  tail_lt := h.tail_lt
  room := by simpa using hroom
  head_eq := by simp [h.head_eq, Nat.mod_add_mod, Nat.add_assoc]
  items i hi := by
    rw [List.length_append, List.length_singleton] at hi
    by_cases hlast : i = q.length
    · subst hlast
      rw [← h.head_eq, Function.update_self, List.getElem_concat_length rfl]
    · have hlt : i < q.length := by omega
      have hne : (tail + i) % m ≠ head := by
        intro heq
        rw [h.head_eq] at heq
        exact hlast (offset_inj (by omega) h.room heq)
      rw [Function.update_of_ne hne, h.items i hlt,
        List.getElem_append_left hlt]

/-- The item that is taken next. -/
theorem Holds.front {x : α} (h : Holds m slot head tail (x :: q)) :
    slot tail = x := by
  have hfirst := h.items 0 (Nat.succ_pos _)
  rw [Nat.add_zero, Nat.mod_eq_of_lt h.tail_lt] at hfirst
  exact hfirst

/-- A pop. -/
theorem Holds.pop {x : α} (h : Holds m slot head tail (x :: q)) :
    Holds m slot head ((tail + 1) % m) q where
  tail_lt := Nat.mod_lt _ (Nat.zero_lt_of_lt h.tail_lt)
  room := Nat.lt_of_succ_lt h.room
  head_eq := by
    rw [h.head_eq, Nat.mod_add_mod, List.length_cons]
    congr 1
    omega
  items i hi := by
    have hnext := h.items (i + 1) (Nat.succ_lt_succ hi)
    rw [Nat.mod_add_mod, Nat.add_assoc, Nat.add_comm 1 i]
    exact hnext

end RingBuffer
