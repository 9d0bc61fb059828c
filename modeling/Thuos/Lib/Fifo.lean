/-
Jobs served in turn from a queue.

A job is a name and the turns it has left. The job in front is served: a
job with turns left takes one and goes to the back, a job without leaves.
`served` lists what happens, the job with `true` for a turn and `false` for
leaving.

The queue serves in rounds: everything in it now is served before anything
is served twice (`served_append`). So the turns, read off in order, are
round by round the jobs that still have that many (`turns_eq`), each job
takes all of its turns (`count_turns`), and everyone leaves once
(`leavers_perm`). Where no one leaves, the turns go on in the same rounds
(`rota`), and everyone gets as many as anyone else, or one more or less
(`count_rota`).
-/
import Mathlib

namespace Fifo

variable {α : Type*}

/-- What serving the queue does, in order. -/
def served : List (α × Nat) → List (α × Bool)
  | [] => []
  | (a, 0) :: q => (a, false) :: served q
  | (a, n + 1) :: q => (a, true) :: served (q ++ [(a, n)])
termination_by q => (q.map fun j => j.2 + 1).sum
decreasing_by
  · simp
  · simp
    omega

/-- The job after its turn, if it had one. -/
def again (j : α × Nat) : Option (α × Nat) :=
  match j with
  | (_, 0) => none
  | (a, n + 1) => some (a, n)

/-- What happens to a job when it is served. -/
def front (j : α × Nat) : α × Bool := (j.1, decide (0 < j.2))

theorem served_nil : served ([] : List (α × Nat)) = [] := by
  rw [served]

/-- One job is served. -/
theorem served_cons (j : α × Nat) (q : List (α × Nat)) :
    served (j :: q) = front j :: served (q ++ (again j).toList) := by
  obtain ⟨a, n⟩ := j
  cases n with
  | zero =>
      rw [served]
      simp [front, again]
  | succ n =>
      rw [served]
      simp [front, again]

/-- The front part of the queue is served before what is behind it, and
what is left of it queues up behind. -/
theorem served_append (xs ys : List (α × Nat)) :
    served (xs ++ ys) = xs.map front ++ served (ys ++ xs.filterMap again) := by
  induction xs generalizing ys with
  | nil => simp
  | cons x xs ih =>
      rw [List.cons_append, served_cons, List.append_assoc, ih,
        List.map_cons, List.cons_append, List.append_assoc]
      cases hx : again x with
      | none => rw [List.filterMap_cons_none hx, Option.toList_none,
          List.nil_append]
      | some y => rw [List.filterMap_cons_some hx, Option.toList_some,
          List.singleton_append]

/-- A round. -/
theorem served_round (q : List (α × Nat)) :
    served q = q.map front ++ served (q.filterMap again) := by
  have hround := served_append q []
  rw [List.append_nil, List.nil_append] at hround
  exact hround

-- =============================================================== the turns

/-- The jobs that take a turn, in order. -/
def turns (q : List (α × Nat)) : List α :=
  ((served q).filter (·.2)).map (·.1)

theorem turns_leave (a : α) (q : List (α × Nat)) :
    turns ((a, 0) :: q) = turns q := by
  unfold turns
  rw [served]
  simp

theorem turns_turn (a : α) (n : Nat) (q : List (α × Nat)) :
    turns ((a, n + 1) :: q) = a :: turns (q ++ [(a, n)]) := by
  unfold turns
  rw [served]
  simp

/-- The jobs that take a turn in round `r`. -/
def roundOf (q : List (α × Nat)) (r : Nat) : List α :=
  (q.filter fun j => r < j.2).map (·.1)

/-- A round later, every job has a turn less. -/
theorem roundOf_again (q : List (α × Nat)) (r : Nat) :
    roundOf (q.filterMap again) r = roundOf q (r + 1) := by
  induction q with
  | nil => rfl
  | cons j q ih =>
      obtain ⟨a, n⟩ := j
      unfold roundOf at ih ⊢
      cases n with
      | zero =>
          rw [List.filterMap_cons_none rfl, ih, List.filter_cons_of_neg]
          simp
      | succ n =>
          have hagain : again (a, n + 1) = some (a, n) := rfl
          rw [List.filterMap_cons_some hagain, List.filter_cons,
            List.filter_cons]
          by_cases hr : r < n
          · rw [if_pos (decide_eq_true hr), if_pos (by simpa using hr),
              List.map_cons, List.map_cons, ih]
          · rw [if_neg (by simpa using hr), if_neg (by simpa using hr), ih]

theorem turns_round (q : List (α × Nat)) :
    turns q = roundOf q 0 ++ turns (q.filterMap again) := by
  unfold turns
  rw [served_round q, List.filter_append, List.map_append, List.filter_map,
    List.map_map]
  rfl

/-- A round later, the longest job is shorter. -/
theorem lt_of_mem_again {q : List (α × Nat)} {m : Nat}
    (h : ∀ j ∈ q, j.2 < m + 1) : ∀ j ∈ q.filterMap again, j.2 < m := by
  intro j hj
  obtain ⟨⟨a, n⟩, hmem, hsome⟩ := List.mem_filterMap.mp hj
  have hlt := h _ hmem
  cases n with
  | zero => cases hsome
  | succ n =>
      cases hsome
      exact Nat.lt_of_succ_lt_succ hlt

/-- Rounds are enough to serve everyone: a rule for statements about whole
queues, with a bound on the jobs that each round lowers. -/
theorem round_induction {P : Nat → List (α × Nat) → Prop}
    (hnil : P 0 [])
    (hround : ∀ m q, P m (q.filterMap again) → P (m + 1) q)
    {m : Nat} {q : List (α × Nat)} (h : ∀ j ∈ q, j.2 < m) : P m q := by
  induction m generalizing q with
  | zero =>
      cases q with
      | nil => exact hnil
      | cons j q => exact absurd (h j (by simp)) (Nat.not_lt_zero _)
  | succ m ih => exact hround m q (ih (lt_of_mem_again h))

/-- Every queue has such a bound. -/
theorem exists_bound (q : List (α × Nat)) : ∃ m, ∀ j ∈ q, j.2 < m := by
  refine ⟨(q.map (·.2)).sum + 1, fun j hj => Nat.lt_succ_of_le ?_⟩
  exact List.single_le_sum (fun _ _ => Nat.zero_le _) _
    (List.mem_map.mpr ⟨j, hj, rfl⟩)

/-- The turns are the rounds, as many as the longest job needs. -/
theorem turns_eq {q : List (α × Nat)} {m : Nat} (h : ∀ j ∈ q, j.2 < m) :
    turns q = (List.range m).flatMap (roundOf q) := by
  refine round_induction
    (P := fun m q => turns q = (List.range m).flatMap (roundOf q)) ?_ ?_ h
  · simp [turns, served_nil]
  · intro m q ih
    have hrounds : roundOf (q.filterMap again) = fun r => roundOf q (r + 1) :=
        funext (roundOf_again q)
    rw [turns_round, ih, hrounds, List.range_succ_eq_map,
      List.flatMap_cons, List.flatMap_map]

-- ====================================================== what a job gets

/-- A job takes all of its turns. -/
theorem count_turns [DecidableEq α] (q : List (α × Nat)) (a : α) :
    (turns q).count a = ((q.filter (·.1 = a)).map (·.2)).sum := by
  obtain ⟨m, h⟩ := exists_bound q
  refine round_induction (P := fun _ q => (turns q).count a
    = ((q.filter (·.1 = a)).map (·.2)).sum) ?_ ?_ h
  · simp [turns, served_nil]
  · intro m q ih
    rw [turns_round, List.count_append, ih]
    clear ih
    induction q with
    | nil => rfl
    | cons j q ih =>
        obtain ⟨b, n⟩ := j
        unfold roundOf at ih ⊢
        cases n with
        | zero =>
            have hagain : again (b, 0) = none := rfl
            rw [List.filterMap_cons_none hagain,
              List.filter_cons_of_neg (by simp), ih, List.filter_cons]
            split
            · simp
            · rfl
        | succ n =>
            have hagain : again (b, n + 1) = some (b, n) := rfl
            rw [List.filterMap_cons_some hagain,
              List.filter_cons_of_pos (by simp), List.map_cons,
              List.count_cons, List.filter_cons, List.filter_cons]
            by_cases hb : b = a
            · simp only [hb, decide_true, if_true, List.map_cons,
                List.sum_cons, beq_self_eq_true]
              omega
            · simp only [hb, decide_false, if_false, beq_iff_eq]
              exact ih

/-- The jobs that leave, in order. -/
def leavers (q : List (α × Nat)) : List α :=
  ((served q).filter (!·.2)).map (·.1)

theorem leavers_leave (a : α) (q : List (α × Nat)) :
    leavers ((a, 0) :: q) = a :: leavers q := by
  unfold leavers
  rw [served]
  simp

theorem leavers_turn (a : α) (n : Nat) (q : List (α × Nat)) :
    leavers ((a, n + 1) :: q) = leavers (q ++ [(a, n)]) := by
  unfold leavers
  rw [served]
  simp

/-- Every job leaves, once. -/
theorem leavers_perm (q : List (α × Nat)) :
    (leavers q).Perm (q.map (·.1)) := by
  obtain ⟨m, h⟩ := exists_bound q
  refine round_induction
    (P := fun _ q => (leavers q).Perm (q.map (·.1))) ?_ ?_ h
  · simp [leavers, served_nil]
  · intro m q ih
    have hround : leavers q
        = (q.filter fun j => !decide (0 < j.2)).map (·.1)
          ++ leavers (q.filterMap again) := by
      unfold leavers
      rw [served_round q, List.filter_append, List.map_append,
        List.filter_map, List.map_map]
      rfl
    rw [hround]
    refine (List.Perm.append_left _ ih).trans ?_
    clear ih hround
    induction q with
    | nil => exact List.Perm.refl _
    | cons j q ih =>
        obtain ⟨b, n⟩ := j
        cases n with
        | zero =>
            have hagain : again (b, 0) = none := rfl
            rw [List.filterMap_cons_none hagain,
              List.filter_cons_of_pos (by simp)]
            exact List.Perm.cons b ih
        | succ n =>
            have hagain : again (b, n + 1) = some (b, n) := rfl
            rw [List.filterMap_cons_some hagain,
              List.filter_cons_of_neg (by simp), List.map_cons,
              List.map_cons]
            exact (List.perm_middle).trans (List.Perm.cons b ih)

-- ============================================================= endless turns

section Rota

/-- The first `n` turns when everyone goes to the back and no one leaves. -/
def rota : Nat → List α → List α
  | n + 1, a :: q => a :: rota n (q ++ [a])
  | _, _ => []

theorem rota_nil (n : Nat) : rota n ([] : List α) = [] := by
  cases n with
  | zero => rfl
  | succ n => rfl

/-- The front part of the queue has its turns first. -/
theorem rota_append (xs ys : List α) (n : Nat) :
    rota (xs.length + n) (xs ++ ys) = xs ++ rota n (ys ++ xs) := by
  induction xs generalizing ys with
  | nil => simp
  | cons x xs ih =>
      rw [List.length_cons, Nat.add_right_comm, List.cons_append, rota,
        List.append_assoc, ih]
      simp

/-- A round. -/
theorem rota_round (q : List α) (n : Nat) :
    rota (q.length + n) q = q ++ rota n q := by
  have hround := rota_append q [] n
  rw [List.append_nil, List.nil_append] at hround
  exact hround

/-- A part of a round. -/
theorem rota_take {q : List α} {n : Nat} (h : n ≤ q.length) :
    rota n q = q.take n := by
  have hpart := rota_append (q.take n) (q.drop n) 0
  rw [List.take_append_drop, List.length_take_of_le h] at hpart
  rw [Nat.add_zero] at hpart
  rw [hpart]
  cases q.drop n ++ q.take n with
  | nil => exact List.append_nil _
  | cons a q => exact List.append_nil _

theorem mem_rota {q : List α} {a : α} {n : Nat} (h : a ∈ rota n q) :
    a ∈ q := by
  induction n generalizing q with
  | zero => cases q with
    | nil => cases h
    | cons b q => cases h
  | succ n ih =>
      cases q with
      | nil => cases h
      | cons b q =>
          rcases List.mem_cons.mp h with hab | hmem
          · rw [hab]
            exact List.mem_cons_self
          · have hrest := ih hmem
            simpa [or_comm] using hrest

variable [DecidableEq α]

/-- Turns are shared out evenly. -/
theorem count_rota {q : List α} {a : α} (hq : q.Nodup) (ha : a ∈ q)
    (n : Nat) :
    n / q.length ≤ (rota n q).count a
      ∧ (rota n q).count a ≤ n / q.length + 1 := by
  have hpos : 0 < q.length := List.length_pos_of_mem ha
  -- round by round, and a part of one at the end
  induction n using Nat.strong_induction_on with
  | _ n ih =>
      by_cases hn : n < q.length
      · rw [rota_take (Nat.le_of_lt hn), Nat.div_eq_of_lt hn]
        refine ⟨Nat.zero_le _, ?_⟩
        have hpart := (List.take_sublist n q).count_le a
        rw [List.count_eq_one_of_mem hq ha] at hpart
        exact hpart
      · obtain ⟨m, rfl⟩ := Nat.exists_eq_add_of_le (Nat.le_of_not_lt hn)
        obtain ⟨hlow, hhigh⟩ := ih m (by omega)
        rw [rota_round, List.count_append, List.count_eq_one_of_mem hq ha,
          Nat.add_div_left m hpos]
        omega

end Rota

end Fifo
