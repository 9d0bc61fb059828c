/-
Counting loops: a body folded over `0 .. n-1`, or over `n-1 .. 0`, with
the rule of its invariant, and the loops that fill or copy a run of an
array.

A copy onto itself gives the run as it was if each slot is read before it
is overwritten: counting up if the run moves down, counting down if it
moves up, either way if it moves clear of itself (`upTo_copy`,
`downTo_copy`).
-/
import Mathlib

namespace Loop

variable {σ α : Type*}

/-- `for (i = 0; i < n; i++) s = body(s, i)`. -/
def upTo (n : Nat) (body : σ → Nat → σ) (s : σ) : σ :=
  (List.range n).foldl body s

@[simp] theorem upTo_zero (body : σ → Nat → σ) (s : σ) :
    upTo 0 body s = s := rfl

theorem upTo_succ (n : Nat) (body : σ → Nat → σ) (s : σ) :
    upTo (n + 1) body s = body (upTo n body s) n := by
  unfold upTo
  rw [List.range_succ, List.foldl_append]
  rfl

/-- The loop rule: what holds before turn 0 and is carried from turn `i`
to turn `i + 1` holds after the last one. -/
theorem upTo_inv {body : σ → Nat → σ} {s : σ} (Inv : Nat → σ → Prop)
    {n : Nat} (h0 : Inv 0 s)
    (hstep : ∀ i < n, ∀ t, Inv i t → Inv (i + 1) (body t i)) :
    Inv n (upTo n body s) := by
  induction n with
  | zero => exact h0
  | succ n ih =>
      rw [upTo_succ]
      refine hstep n (Nat.lt_succ_self n) _ (ih fun i hi => ?_)
      exact hstep i (Nat.lt_succ_of_lt hi)

/-- Two bodies that do the same to every state the loop is in. -/
theorem upTo_congr {body body' : σ → Nat → σ} {s : σ} (Inv : σ → Prop)
    {n : Nat} (h0 : Inv s) (hkeep : ∀ i < n, ∀ t, Inv t → Inv (body t i))
    (hsame : ∀ i < n, ∀ t, Inv t → body t i = body' t i) :
    upTo n body s = upTo n body' s := by
  have hrun : Inv (upTo n body s) ∧ upTo n body s = upTo n body' s := by
    refine upTo_inv (fun i t => Inv t ∧ t = upTo i body' s) ⟨h0, rfl⟩ ?_
    intro i hi t hrun
    obtain ⟨ht, heq⟩ := hrun
    refine ⟨hkeep i hi t ht, ?_⟩
    rw [hsame i hi t ht, heq, upTo_succ]
  exact hrun.2

/-- Two loops whose turns keep the states related. -/
theorem upTo_sim {τ : Type*} (R : σ → τ → Prop) {body : σ → Nat → σ}
    {body' : τ → Nat → τ} {s : σ} {t : τ} {n : Nat} (h0 : R s t)
    (hstep : ∀ i < n, ∀ s t, R s t → R (body s i) (body' t i)) :
    R (upTo n body s) (upTo n body' t) := by
  induction n with
  | zero => exact h0
  | succ n ih =>
      rw [upTo_succ, upTo_succ]
      apply hstep n (Nat.lt_succ_self n)
      exact ih fun i hi => hstep i (Nat.lt_succ_of_lt hi)

/-- A loop of turns that do nothing. -/
theorem upTo_idle {body : σ → Nat → σ} {n : Nat}
    (h : ∀ i < n, ∀ t, body t i = t) (s : σ) : upTo n body s = s :=
  upTo_inv (fun _ t => t = s) rfl fun i hi t ht => (h i hi t).trans ht

/-- The first `a` turns, then the others. -/
theorem upTo_add (a b : Nat) (body : σ → Nat → σ) (s : σ) :
    upTo (a + b) body s
      = upTo b (fun t i => body t (a + i)) (upTo a body s) := by
  induction b with
  | zero => rfl
  | succ b ih => rw [← Nat.add_assoc, upTo_succ, ih, upTo_succ]

/-- A loop that does something in the turns from `a` to `a + b` only. -/
theorem upTo_window {body : σ → Nat → σ} {n a b : Nat} (hn : a + b ≤ n)
    (hidle : ∀ i < n, i < a ∨ a + b ≤ i → ∀ t, body t i = t) (s : σ) :
    upTo n body s = upTo b (fun t i => body t (a + i)) s := by
  obtain ⟨c, rfl⟩ := Nat.exists_eq_add_of_le hn
  have hbefore : ∀ i < a, ∀ t, body t i = t :=
    fun i hi => hidle i (by omega) (Or.inl hi)
  have hafter : ∀ i < c, ∀ t, body t (a + b + i) = t :=
    fun i hi => hidle (a + b + i) (by omega) (Or.inr (by omega))
  rw [upTo_add, upTo_add a b, upTo_idle hbefore]
  exact upTo_idle hafter _

/-- A loop in a loop, as one loop over the cells of `h` rows of `n`. -/
theorem upTo_nest (h n : Nat) (body : σ → Nat → Nat → σ) (s : σ) :
    upTo h (fun t j => upTo n (fun t i => body t j i) t) s
      = upTo (h * n) (fun t k => body t (k / n) (k % n)) s := by
  induction h with
  | zero => rw [Nat.zero_mul, upTo_zero, upTo_zero]
  | succ h ih =>
      rw [upTo_succ, ih, Nat.succ_mul, upTo_add]
      refine upTo_congr (fun _ => True) trivial (fun _ _ _ _ => trivial) ?_
      intro i hi t _
      have hn : 0 < n := Nat.zero_lt_of_lt hi
      rw [Nat.mul_comm h n, Nat.mul_add_div hn, Nat.mul_add_mod,
        Nat.div_eq_of_lt hi, Nat.mod_eq_of_lt hi, Nat.add_zero]

/-- `for (i = n; i != 0; i--) s = body(s, i - 1)`. -/
def downTo : Nat → (σ → Nat → σ) → σ → σ
  | 0, _, s => s
  | n + 1, body, s => downTo n body (body s n)

theorem downTo_succ (n : Nat) (body : σ → Nat → σ) (s : σ) :
    downTo (n + 1) body s = downTo n body (body s n) := rfl

/-- The same for a loop that counts down. -/
theorem downTo_congr {body body' : σ → Nat → σ} {n : Nat}
    (hsame : ∀ i < n, ∀ t, body t i = body' t i) (s : σ) :
    downTo n body s = downTo n body' s := by
  induction n generalizing s with
  | zero => rfl
  | succ n ih =>
      rw [downTo_succ, downTo_succ, hsame n (Nat.lt_succ_self n)]
      exact ih (fun i hi => hsame i (Nat.lt_succ_of_lt hi)) _

-- ================================================================= arrays

/-- The array after `n` writes to successive slots, from slot `a` on. -/
theorem upTo_update (m : Nat → α) (a n : Nat) (v : Nat → α) (j : Nat) :
    upTo n (fun m i => Function.update m (a + i) (v i)) m j
      = if a ≤ j ∧ j < a + n then v (j - a) else m j := by
  induction n with
  | zero => rw [upTo_zero, if_neg (by omega)]
  | succ n ih =>
      rw [upTo_succ]
      by_cases hj : j = a + n
      · rw [hj, Function.update_self, if_pos (by omega),
          Nat.add_sub_cancel_left]
      · rw [Function.update_of_ne hj, ih]
        by_cases hin : a ≤ j ∧ j < a + n
        · rw [if_pos hin, if_pos (by omega)]
        · rw [if_neg hin, if_neg (by omega)]

/-- A run copied upwards, to a place that is not above it, or clear of
it. -/
theorem upTo_copy (m : Nat → α) {a b n : Nat} (h : a ≤ b ∨ b + n ≤ a)
    (j : Nat) :
    upTo n (fun m i => Function.update m (a + i) (m (b + i))) m j
      = if a ≤ j ∧ j < a + n then m (b + (j - a)) else m j := by
  induction n generalizing j with
  | zero => rw [upTo_zero, if_neg (by omega)]
  | succ n ih =>
      have hrest : a ≤ b ∨ b + n ≤ a := by omega
      rw [upTo_succ]
      by_cases hj : j = a + n
      · -- the source of this turn lies past what has been written
        rw [hj, Function.update_self, ih hrest, if_neg (by omega),
          if_pos (by omega), Nat.add_sub_cancel_left]
      · rw [Function.update_of_ne hj, ih hrest]
        by_cases hin : a ≤ j ∧ j < a + n
        · rw [if_pos hin, if_pos (by omega)]
        · rw [if_neg hin, if_neg (by omega)]

/-- A run copied downwards, to a place that is not below it, or clear of
it. -/
theorem downTo_copy (m : Nat → α) {a b n : Nat} (h : b ≤ a ∨ a + n ≤ b)
    (j : Nat) :
    downTo n (fun m i => Function.update m (a + i) (m (b + i))) m j
      = if a ≤ j ∧ j < a + n then m (b + (j - a)) else m j := by
  induction n generalizing m with
  | zero =>
      rw [if_neg (by omega)]
      rfl
  | succ n ih =>
      rw [downTo_succ, ih _ (by omega)]
      by_cases hin : a ≤ j ∧ j < a + n
      · -- what is still to be read lies below the slot just written
        rw [if_pos hin, if_pos (by omega), Function.update_of_ne (by omega)]
      · rw [if_neg hin]
        by_cases hj : j = a + n
        · rw [hj, Function.update_self, if_pos (by omega),
            Nat.add_sub_cancel_left]
        · rw [Function.update_of_ne hj, if_neg (by omega)]

/-- A run moved down by `d`. -/
theorem upTo_move (m : Nat → α) (a d n j : Nat) :
    upTo n (fun m i => Function.update m (a + i) (m (a + d + i))) m j
      = if a ≤ j ∧ j < a + n then m (j + d) else m j := by
  rw [upTo_copy m (Or.inl (Nat.le_add_right a d))]
  by_cases hin : a ≤ j ∧ j < a + n
  · have hsrc : a + d + (j - a) = j + d := by omega
    rw [if_pos hin, if_pos hin, hsrc]
  · rw [if_neg hin, if_neg hin]

end Loop
