/-
The scheduler as a queue.

The READY slots, in the order of the scan, are a queue (`readyQueue`): a
pick takes the one in front (`pick_front`), and the slot it puts back is
the last of the scan, because the cursor stands behind the running slot
(`requeue_back`). An exit removes the running slot and leaves the queue as
it is (`exit_queue`).
-/
import Thuos.Sched.Proofs.Running
import Thuos.Sched.Proofs.Exit

namespace Thuos.Sched

open Cyclic

/-- The slots that wait, in the order in which they will be picked. -/
def readyQueue (s : SchedT) : List Nat :=
  (order s.cap s.cursor).filter fun i => (s.task i).state = .ready

/-- Every slot in use carries its index as its id. -/
def Indexed (s : SchedT) : Prop :=
  ∀ i < s.cap, (s.task i).state ≠ .unused → (s.task i).id = i

/-- The cursor stands behind the running slot. -/
def CursorBehind (s : SchedT) (i : Nat) : Prop :=
  s.cursor = (i + 1) % s.cap

variable {s : SchedT} {i : Nat} {q : List Nat}

theorem mem_readyQueue :
    i ∈ readyQueue s ↔ i < s.cap ∧ (s.task i).state = .ready := by
  unfold readyQueue
  rw [List.mem_filter, mem_order, decide_eq_true_eq]

-- ================================================================ requeueing

theorem requeue_of_idle (h : s.current < 0) : requeue s = s := by
  unfold requeue
  rw [if_neg]
  omega

/-- With no slot to put back, the queue stays. -/
theorem requeue_idle (h : s.current < 0) :
    readyQueue (requeue s) = readyQueue s := by
  rw [requeue_of_idle h]

/-- The running slot goes to the back of the queue. -/
theorem requeue_back (h : RunningInv s) (hi : i < s.cap)
    (hcur : s.current = i) (hbehind : CursorBehind s i) :
    readyQueue (requeue s) = readyQueue s ++ [i] := by
  have hrun : (s.task i).state = .running := (h.running_iff i hi).mpr hcur
  obtain ⟨zs, horder⟩ : ∃ zs, order s.cap s.cursor = zs ++ [i] := by
    obtain ⟨xs, ys, hsplit⟩ : ∃ xs ys, order s.cap 0 = xs ++ i :: ys :=
      List.append_of_mem (mem_order.mpr hi)
    refine ⟨ys ++ xs, ?_⟩
    rw [hbehind, order_mod]
    exact order_after hsplit
  have hnodup : (zs ++ [i]).Nodup := by
    rw [← horder]
    exact List.nodup_rotate.mpr List.nodup_range
  have hnotMem : i ∉ zs := fun hmem =>
    (List.nodup_append.mp hnodup).2.2 i hmem i (by simp) rfl
  have hother : ∀ j ∈ zs, ((requeue s).task j).state = (s.task j).state := by
    intro j hj
    have hjcap : j < s.cap := by
      apply (mem_order (c := s.cursor)).mp
      rw [horder]
      exact List.mem_append_left _ hj
    rw [task_requeue h hjcap, if_neg]
    intro hjrun
    have hjcur := (h.running_iff j hjcap).mp hjrun
    have hji : j = i := by omega
    exact hnotMem (hji ▸ hj)
  have hback : ((requeue s).task i).state = .ready := by
    rw [task_requeue h hi, if_pos hrun]
  have hfront : zs.filter (fun j => ((requeue s).task j).state = .ready)
      = zs.filter fun j => (s.task j).state = .ready := by
    refine List.filter_congr fun j hj => ?_
    rw [hother j hj]
  unfold readyQueue
  rw [cap_requeue, cursor_requeue, horder, List.filter_append,
    List.filter_append, hfront]
  simp [hback, hrun]

-- ================================================================== picking

/-- The scheduler once slot `i` runs. -/
def dispatch (s : SchedT) (i : Nat) : SchedT :=
  { s.setTask i { s.task i with state := .running, quantum := (s.task i).reload }
    with current := i, cursor := (i + 1) % s.cap }

theorem cap_dispatch : (dispatch s i).cap = s.cap := by
  show (s.setTask i _).cap = s.cap
  rw [SchedT.cap_setTask]

theorem task_dispatch (hi : i < s.cap) (j : Nat) :
    (dispatch s i).task j
      = if j = i then
          { s.task i with state := .running, quantum := (s.task i).reload }
        else s.task j := by
  show (s.setTask i _).task j = _
  by_cases hji : j = i
  · rw [hji, if_pos rfl]
    exact SchedT.task_setTask_self hi _
  · rw [if_neg hji]
    exact SchedT.task_setTask_ne hji _

/-- The slot in front leaves the queue: what was scanned in vain before it
goes behind, and is still not READY. -/
theorem readyQueue_dispatch (hi : i < s.cap) (hq : readyQueue s = i :: q) :
    readyQueue (dispatch s i) = q := by
  obtain ⟨xs, ys, hsplit, hxs, -, hys⟩ := List.filter_eq_cons_iff.mp hq
  have hnodup : (xs ++ i :: ys).Nodup := by
    rw [← hsplit]
    exact List.nodup_rotate.mpr List.nodup_range
  obtain ⟨-, hback, hapart⟩ := List.nodup_append.mp hnodup
  have hleft : xs.filter (fun j => ((dispatch s i).task j).state = .ready)
      = [] := by
    refine List.filter_eq_nil_iff.mpr fun j hj => ?_
    rw [task_dispatch hi, if_neg (hapart j hj i (by simp))]
    exact hxs j hj
  have hright : ys.filter (fun j => ((dispatch s i).task j).state = .ready)
      = q := by
    rw [← hys]
    refine List.filter_congr fun j hj => ?_
    have hji : j ≠ i := fun hji => (List.nodup_cons.mp hback).1 (hji ▸ hj)
    rw [task_dispatch hi, if_neg hji]
  have hself : ¬ ((dispatch s i).task i).state = .ready := by
    rw [task_dispatch hi, if_pos rfl]
    simp
  unfold readyQueue
  rw [cap_dispatch]
  show (order s.cap ((i + 1) % s.cap)).filter _ = q
  rw [order_mod, order_after hsplit, List.filter_append, List.filter_append,
    hleft, hright]
  simp [hself]

/-- A pick gives the processor to the slot in front. -/
theorem pick_eq (hq : readyQueue (requeue s) = i :: q) :
    schedPickNext s
      = (dispatch (requeue s) i, ((requeue s).task i).id) := by
  have hscan : scanReady (requeue s) = some i := by
    unfold scanReady
    rw [scan_eq_head]
    exact congrArg List.head? hq
  simp only [schedPickNext, hscan]
  rfl

/-- Requeueing touches no id, and no free slot. -/
theorem requeue_slot (h : RunningInv s) {j : Nat} (hj : j < s.cap) :
    ((requeue s).task j).id = (s.task j).id
      ∧ (((requeue s).task j).state = .unused
        ↔ (s.task j).state = .unused) := by
  rw [task_requeue h hj]
  split
  · next hrun => simp [hrun]
  · exact ⟨rfl, Iff.rfl⟩

/-- A pick takes the front of the queue. -/
theorem pick_front (h : RunningInv s) (hq : readyQueue (requeue s) = i :: q) :
    i < s.cap
      ∧ (schedPickNext s).2 = (s.task i).id
      ∧ (schedPickNext s).1.current = i
      ∧ CursorBehind (schedPickNext s).1 i
      ∧ (schedPickNext s).1.cap = s.cap
      ∧ readyQueue (schedPickNext s).1 = q
      ∧ (∀ j < s.cap, ((schedPickNext s).1.task j).id = (s.task j).id
        ∧ (((schedPickNext s).1.task j).state = .unused
          ↔ (s.task j).state = .unused)) := by
  have hmem : i ∈ readyQueue (requeue s) := by simp [hq]
  obtain ⟨hlt, hready⟩ := mem_readyQueue.mp hmem
  have hi : i < s.cap := by
    rw [cap_requeue] at hlt
    exact hlt
  rw [pick_eq hq]
  refine ⟨hi, (requeue_slot h hi).1, rfl, ?_, ?_,
    readyQueue_dispatch hlt hq, fun j hj => ?_⟩
  · show _ = (i + 1) % (dispatch (requeue s) i).cap
    rw [cap_dispatch]
    rfl
  · rw [cap_dispatch, cap_requeue]
  · obtain ⟨hid, hunused⟩ := requeue_slot h hj
    dsimp only
    rw [task_dispatch hlt]
    split
    · next hji =>
        rw [hji] at hid hunused ⊢
        rw [hready] at hunused
        exact ⟨hid, by simpa using hunused⟩
    · exact ⟨hid, hunused⟩

/-- A pick from an empty queue goes idle. -/
theorem pick_empty (hq : readyQueue (requeue s) = []) :
    schedPickNext s = ({ requeue s with current := -1 }, -1) := by
  have hscan : scanReady (requeue s) = none := by
    unfold scanReady
    rw [scan_eq_head]
    exact congrArg List.head? hq
  simp only [schedPickNext, hscan]

theorem indexed_pick (h : RunningInv s) (hx : Indexed s)
    (hq : readyQueue (requeue s) = i :: q) : Indexed (schedPickNext s).1 := by
  obtain ⟨-, -, -, -, hcap, -, htask⟩ := pick_front h hq
  intro j hj hu
  rw [hcap] at hj
  obtain ⟨hid, hunused⟩ := htask j hj
  rw [hid]
  exact hx j hj fun h => hu (hunused.mpr h)

-- ================================================================== exiting

/-- The running task exits: its slot is a zombie, and nothing runs. -/
theorem exit_eq (h : RunningInv s) (hx : Indexed s) (hi : i < s.cap)
    (hcur : s.current = i) :
    schedExit s i = { s.setState i .zombie with current := -1 } := by
  have hrun : (s.task i).state = .running := (h.running_iff i hi).mpr hcur
  have hused : (s.task i).state ≠ .unused := by
    rw [hrun]
    decide
  have hfind : findId s i = some i := by
    refine findId_eq_some_iff.mpr ⟨hi, ⟨hused, hx i hi hused⟩, ?_⟩
    rintro j hj ⟨hju, hjid⟩
    have hjx := hx j (by omega) hju
    omega
  unfold schedExit
  rw [retire_spec .zombie hfind, if_pos hcur]

theorem exit_queue (h : RunningInv s) (hx : Indexed s) (hi : i < s.cap)
    (hcur : s.current = i) :
    readyQueue (schedExit s i) = readyQueue s
      ∧ Indexed (schedExit s i) ∧ (schedExit s i).cap = s.cap
      ∧ (schedExit s i).current = -1 := by
  have hrun : (s.task i).state = .running := (h.running_iff i hi).mpr hcur
  have htask : ∀ j, (schedExit s i).task j
      = if j = i then { s.task i with state := .zombie } else s.task j := by
    intro j
    rw [exit_eq h hx hi hcur]
    show (s.setState i .zombie).task j = _
    unfold SchedT.setState
    by_cases hji : j = i
    · rw [hji, if_pos rfl]
      exact SchedT.task_setTask_self hi _
    · rw [if_neg hji]
      exact SchedT.task_setTask_ne hji _
  have hcap : (schedExit s i).cap = s.cap := cap_retire ..
  have hcursor : (schedExit s i).cursor = s.cursor := cursor_retire ..
  refine ⟨?_, fun j hj hu => ?_, hcap, ?_⟩
  · unfold readyQueue
    rw [hcap, hcursor]
    refine List.filter_congr fun j _ => ?_
    rw [htask]
    by_cases hji : j = i
    · rw [if_pos hji, hji]
      simp [hrun]
    · rw [if_neg hji]
  · rw [htask] at hu ⊢
    by_cases hji : j = i
    · rw [if_pos hji, hji]
      exact hx i hi (by rw [hrun]; decide)
    · rw [if_neg hji] at hu ⊢
      exact hx j (by rw [← hcap]; exact hj) hu
  · rw [exit_eq h hx hi hcur]

end Thuos.Sched
