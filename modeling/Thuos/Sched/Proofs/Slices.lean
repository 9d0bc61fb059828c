/-
Slices are shared out evenly.

A task that is picked keeps the processor for exactly its quantum
(`elapse_eq`), and then goes to the back of the queue (`turn_spec`). So the
demonstration, which picks again and again, serves the queue in rounds: what
it prints is the rota of the queue, every task that can run gets as many
slices as any other, or one more or less, and all its loops end
(`sched_kdemo_round_robin`).

The queue is in order as long as the cursor stands behind the running slot,
which no call changes (`Behind`).
-/
import Thuos.Lib.Fifo
import Thuos.Sched.Kdemo
import Thuos.Sched.Proofs.Fair
import Thuos.Sched.Proofs.ReadyQueue

namespace Thuos.Sched

open Machine

-- ================================================================ the cursor

/-- The cursor stands behind whatever slot runs. -/
def Behind (s : SchedT) : Prop :=
  ∀ i : Nat, i < s.cap → s.current = i → CursorBehind s i

section Cursor

variable {s : SchedT}

theorem current_retire (s : SchedT) (id : Int) (st : TaskState) :
    (retire s id st).current = s.current ∨ (retire s id st).current = -1 := by
  cases h : findId s id with
  | none =>
      rw [retire_none st h]
      exact .inl rfl
  | some i =>
      rw [retire_spec st h]
      dsimp only
      split
      · exact .inr rfl
      · exact .inl rfl

/-- Only a pick gives the processor to a task. -/
theorem current_step (s : SchedT) {op : Op} (hop : op ≠ .pickNext) :
    (step s op).current = s.current ∨ (step s op).current = -1 := by
  cases op with
  | add id quantum =>
      show (schedAdd s id quantum).1.current = _ ∨ _
      rcases schedAdd_spec s id quantum with ⟨i, -, -, q, -, hadd⟩ | hadd
      · rw [hadd]
        exact .inl (SchedT.current_setTask ..)
      · rw [hadd]
        exact .inl rfl
  | pickNext => exact absurd rfl hop
  | onTick =>
      show (schedOnTick s).1.current = _ ∨ _
      rcases schedOnTick_spec s with ⟨-, -, htick⟩ | htick
      · rw [htick]
        exact .inl (SchedT.current_setTask ..)
      · rw [htick]
        exact .inl rfl
  | block id => exact current_retire s id .blocked
  | unblock id =>
      show (schedUnblock s id).current = _ ∨ _
      rcases schedUnblock_spec s id with ⟨i, -, -, hun⟩ | hun
      · rw [hun]
        exact .inl (SchedT.current_setTask ..)
      · rw [hun]
        exact .inl rfl
  | exit id => exact current_retire s id .zombie

theorem behind_step (h : RunningInv s) (hb : Behind s) (op : Op) :
    Behind (step s op) := by
  intro i hi hcur
  have hcap := cap_step h op
  rw [hcap] at hi
  unfold CursorBehind
  rw [hcap]
  by_cases hop : op = .pickNext
  · subst hop
    rcases schedPickNext_spec h with
      ⟨k, -, -, -, -, hk, hcursor, -⟩ | ⟨-, hidle⟩
    · have hik : k = i := by
        have hsame : (k : Int) = i := hk.symm.trans hcur
        omega
      rw [← hik]
      exact hcursor
    · have hnone : (step s .pickNext).current = -1 := by
        show (schedPickNext s).1.current = -1
        rw [hidle]
      omega
  · rw [cursor_step s hop]
    rcases current_step s hop with hsame | hnone
    · exact hb i hi (hsame.symm.trans hcur)
    · omega

/-- A state of the scheduler that calls can lead to. -/
structure Sane (s : SchedT) : Prop where
  inv : RunningInv s
  behind : Behind s

theorem sane_exec {s : SchedT} (h : Sane s) (ops : List Op) :
    Sane (exec step s ops) :=
  exec_inv' Sane
    (fun _ op hs =>
      ⟨runningInv_step hs.inv op, behind_step hs.inv hs.behind op⟩) h

theorem sane_init (cap : Nat) : Sane (schedInit cap) := by
  refine ⟨runningInv_init cap, fun i _ hcur => ?_⟩
  have hnone : (schedInit cap).current = -1 := rfl
  omega

/-- The queue of the next pick: whoever can run. -/
theorem mem_requeue (h : RunningInv s) {i : Nat} :
    i ∈ readyQueue (requeue s) ↔ i < s.cap ∧ Runnable (s.task i) := by
  rw [mem_readyQueue, cap_requeue]
  constructor
  · rintro ⟨hi, hready⟩
    exact ⟨hi, (requeue_ready_iff h hi).mp hready⟩
  · rintro ⟨hi, hrun⟩
    exact ⟨hi, (requeue_ready_iff h hi).mpr hrun⟩

theorem nodup_readyQueue (s : SchedT) : (readyQueue s).Nodup :=
  (List.nodup_rotate.mpr List.nodup_range).filter _

end Cursor

-- ================================================================ a slice

section Slice

variable {s : SchedT} {i : Nat}

/-- A task whose slice is used up. -/
def used (t : SchedTask) : SchedTask :=
  { t with quantum := 0, ran := (t.ran + t.quantum) % 2 ^ 32 }

theorem onTick_running (hcur : s.current = i)
    (hrun : (s.task i).state = .running) :
    schedOnTick s
      = (s.setTask i (charge (s.task i)),
          if (charge (s.task i)).quantum = 0 then 1 else 0) := by
  have hindex : s.current.toNat = i := by omega
  unfold schedOnTick
  rw [if_neg (by omega), hindex]
  dsimp only
  rw [if_neg (fun hne => hne hrun)]

theorem setTask_setTask (s : SchedT) (i : Nat) (t u : SchedTask) :
    (s.setTask i t).setTask i u = s.setTask i u := by
  unfold SchedT.setTask
  simp

/-- The slice runs out after as many ticks as the quantum has. -/
theorem elapse_eq {turns : Nat} (hi : i < s.cap) (hcur : s.current = i)
    (hrun : (s.task i).state = .running) (hpos : 0 < (s.task i).quantum)
    (hturns : (s.task i).quantum ≤ turns) :
    elapse turns s = some (s.setTask i (used (s.task i))) := by
  induction turns generalizing s with
  | zero => omega
  | succ turns ih =>
      have hcharge : charge (s.task i)
          = { s.task i with
              ran := ((s.task i).ran + 1) % 2 ^ 32
              quantum := (s.task i).quantum - 1 } := by
        unfold charge
        rw [if_pos hpos]
      unfold elapse
      rw [onTick_running hcur hrun]
      dsimp only
      by_cases hlast : (s.task i).quantum = 1
      · have hzero : (charge (s.task i)).quantum = 0 := by
          rw [hcharge]
          dsimp only
          omega
        rw [if_pos hzero, if_neg (by omega), hcharge]
        unfold used
        rw [hlast]
      · have hmore : (charge (s.task i)).quantum ≠ 0 := by
          rw [hcharge]
          dsimp only
          omega
        rw [if_neg hmore, if_pos rfl]
        have htask : (s.setTask i (charge (s.task i))).task i
            = charge (s.task i) := SchedT.task_setTask_self hi _
        rw [ih]
        · rw [htask, setTask_setTask, hcharge]
          unfold used
          dsimp only
          congr 3
          omega
        · rw [SchedT.cap_setTask]
          exact hi
        · rw [SchedT.current_setTask]
          exact hcur
        · rw [htask, hcharge]
          exact hrun
        · rw [htask]
          omega
        · rw [htask, hcharge]
          dsimp only
          omega

/-- Letting the slice run out is so many ticks. -/
theorem elapse_ticks {turns : Nat} {t : SchedT}
    (h : elapse turns s = some t) : ∃ ops, t = exec step s ops := by
  induction turns generalizing s with
  | zero => cases h
  | succ turns ih =>
      unfold elapse at h
      dsimp only at h
      split at h
      · obtain ⟨ops, hops⟩ := ih h
        exact ⟨.onTick :: ops, hops⟩
      · exact ⟨[.onTick], (Option.some.inj h).symm⟩

end Slice

-- =================================================================== a turn

/-- What has been given out: to slot `i`, `slices i` slices. -/
structure Given (s t : SchedT) (slices : Nat → Nat) : Prop where
  cap : t.cap = s.cap
  id : ∀ i < s.cap, (t.task i).id = (s.task i).id
  reload : ∀ i < s.cap, (t.task i).reload = (s.task i).reload
  ran : ∀ i < s.cap, (t.task i).ran
    ≡ (s.task i).ran + slices i * (s.task i).reload [MOD 2 ^ 32]

section Turn

variable {s t : SchedT} {i : Nat} {q : List Nat} {turns : Nat}

theorem Given.trans {u : SchedT} {f g : Nat → Nat} (hst : Given s t f)
    (htu : Given t u g) : Given s u fun i => f i + g i := by
  have hcap := hst.cap
  refine ⟨htu.cap.trans hcap, fun i hi => ?_, fun i hi => ?_,
    fun i hi => ?_⟩
  · rw [htu.id i (by omega), hst.id i hi]
  · rw [htu.reload i (by omega), hst.reload i hi]
  · have hran := htu.ran i (by omega)
    rw [hst.reload i hi] at hran
    have hsum := hran.trans ((hst.ran i hi).add_right _)
    rw [Nat.add_assoc, ← Nat.add_mul] at hsum
    exact hsum

/-- The task in front of the queue gets its slice, and goes to the back. -/
theorem turn_spec (hs : Sane s) (hq : readyQueue (requeue s) = i :: q)
    (hturns : ∀ i < s.cap, (s.task i).reload ≤ turns) :
    ∃ t, elapse turns (schedPickNext s).1 = some t ∧ Sane t
      ∧ readyQueue (requeue t) = q ++ [i]
      ∧ Given s t fun j => if j = i then 1 else 0 := by
  have hmem : i ∈ readyQueue (requeue s) := by simp [hq]
  obtain ⟨hi, hrunnable⟩ := (mem_requeue hs.inv).mp hmem
  obtain ⟨-, -, hcur, hbehind, hcap, hqueue, -⟩ := pick_front hs.inv hq
  have htask : ∀ j < s.cap, (schedPickNext s).1.task j = afterPick s i j := by
    rcases schedPickNext_spec hs.inv with
      ⟨k, -, -, -, -, hk, -, -, htask⟩ | ⟨hidle, -⟩
    · have hki : k = i := by
        have hsame : (k : Int) = i := hk.symm.trans hcur
        omega
      rw [hki] at htask
      exact htask
    · exact absurd hrunnable (hidle i hi)
  have hsane : Sane (schedPickNext s).1 := sane_exec hs [.pickNext]
  generalize (schedPickNext s).1 = p at *
  have hpi : p.task i
      = { s.task i with state := .running, quantum := (s.task i).reload } := by
    rw [htask i hi]
    exact if_pos rfl
  have hused : (s.task i).state ≠ .unused := by
    rintro hunused
    rcases hrunnable with hready | hrunning
    · rw [hready] at hunused
      cases hunused
    · rw [hrunning] at hunused
      cases hunused
  have hslice := (hs.inv.slice i hi hused).1
  have helapse := @elapse_eq p i turns (by omega) hcur (by rw [hpi])
    (by rw [hpi]; exact hslice) (by rw [hpi]; exact hturns i hi)
  have hself : (p.setTask i (used (p.task i))).task i = used (p.task i) :=
    SchedT.task_setTask_self (by omega) _
  have hother : ∀ j ≠ i, (p.setTask i (used (p.task i))).task j = p.task j :=
    fun j hj => SchedT.task_setTask_ne hj _
  obtain ⟨ops, hops⟩ := elapse_ticks helapse
  have hsane' : Sane (p.setTask i (used (p.task i))) := by
    rw [hops]
    exact sane_exec hsane ops
  refine ⟨_, helapse, hsane', ?_, ?_⟩
  · have hback := requeue_back hsane'.inv (by rw [SchedT.cap_setTask]; omega)
      ((SchedT.current_setTask ..).trans hcur)
      (hsane'.behind i (by rw [SchedT.cap_setTask]; omega)
        ((SchedT.current_setTask ..).trans hcur))
    rw [hback, ← hqueue]
    congr 1
    unfold readyQueue
    rw [SchedT.cap_setTask, SchedT.cursor_setTask]
    refine List.filter_congr fun j _ => ?_
    by_cases hj : j = i
    · rw [hj, hself]
      rfl
    · rw [hother j hj]
  · have hkeep : ∀ j < s.cap, j ≠ i →
        ((p.setTask i (used (p.task i))).task j).id = (s.task j).id
          ∧ ((p.setTask i (used (p.task i))).task j).reload
            = (s.task j).reload
          ∧ ((p.setTask i (used (p.task i))).task j).ran
            = (s.task j).ran := by
      intro j hj hji
      rw [hother j hji, htask j hj, afterPick, if_neg hji]
      split
      · exact ⟨rfl, rfl, rfl⟩
      · exact ⟨rfl, rfl, rfl⟩
    refine ⟨(SchedT.cap_setTask ..).trans hcap, fun j hj => ?_, fun j hj => ?_,
      fun j hj => ?_⟩
    · by_cases hji : j = i
      · rw [hji, hself, hpi]
        rfl
      · exact (hkeep j hj hji).1
    · by_cases hji : j = i
      · rw [hji, hself, hpi]
        rfl
      · exact (hkeep j hj hji).2.1
    · by_cases hji : j = i
      · rw [if_pos hji, Nat.one_mul, hji, hself, hpi]
        exact Nat.mod_modEq _ _
      · rw [if_neg hji, Nat.zero_mul, Nat.add_zero, (hkeep j hj hji).2.2]

/-- Nobody can run: the demonstration stops. -/
theorem kdemo_idle (hs : Sane s) (hq : readyQueue (requeue s) = []) (n : Nat) :
    ∃ t, kdemoLoop turns n s = some (([.idle] : List KdemoItem).take n, t)
      ∧ Given s t fun _ => 0 := by
  cases n with
  | zero =>
      refine ⟨s, rfl, rfl, fun _ _ => rfl, fun _ _ => rfl, fun i _ => ?_⟩
      rw [Nat.zero_mul]
      exact Nat.ModEq.refl _
  | succ n =>
      refine ⟨{ requeue s with current := -1 }, ?_, cap_requeue s,
        fun i hi => ?_, fun i hi => ?_, fun i hi => ?_⟩
      · unfold kdemoLoop
        rw [pick_empty hq, List.take_succ_cons, List.take_nil]
        rfl
      · exact (requeue_slot hs.inv hi).1
      · show ((requeue s).task i).reload = _
        rw [task_requeue hs.inv hi]
        split
        · rfl
        · rfl
      · show ((requeue s).task i).ran ≡ _ [MOD _]
        rw [task_requeue hs.inv hi, Nat.zero_mul]
        split
        · exact Nat.ModEq.refl _
        · exact Nat.ModEq.refl _

/-- The queue is served in turn. -/
theorem kdemo_serves (hs : Sane s) (hq : readyQueue (requeue s) = i :: q)
    (hids : ∀ i < s.cap, 0 ≤ (s.task i).id)
    (hturns : ∀ i < s.cap, (s.task i).reload ≤ turns) (n : Nat) :
    ∃ t, kdemoLoop turns n s
        = some ((Fifo.rota n (i :: q)).map fun j => .task (s.task j).id, t)
      ∧ Given s t fun j => (Fifo.rota n (i :: q)).count j := by
  induction n generalizing s i q with
  | zero =>
      refine ⟨s, rfl, rfl, fun _ _ => rfl, fun _ _ => rfl, fun i _ => ?_⟩
      show _ ≡ _ + 0 * _ [MOD _]
      rw [Nat.zero_mul]
      exact Nat.ModEq.refl _
  | succ n ih =>
      obtain ⟨t, helapse, hsane, hqueue, hgiven⟩ := turn_spec hs hq hturns
      have hcap := hgiven.cap
      obtain ⟨hi, hid, -⟩ := pick_front hs.inv hq
      have hmem : ∀ j ∈ Fifo.rota n (q ++ [i]), j < s.cap := by
        intro j hj
        have hback := Fifo.mem_rota hj
        rw [← hqueue] at hback
        have hlt := ((mem_requeue hsane.inv).mp hback).1
        omega
      obtain ⟨k, q', hrest⟩ : ∃ k q', q ++ [i] = k :: q' := by
        cases q with
        | nil => exact ⟨_, _, rfl⟩
        | cons k q => exact ⟨_, _, rfl⟩
      rw [hrest] at hqueue hmem
      obtain ⟨u, hloop, hmore⟩ := ih hsane hqueue
        (fun j hj => by
          rw [hgiven.id j (by omega)]
          exact hids j (by omega))
        (fun j hj => by
          rw [hgiven.reload j (by omega)]
          exact hturns j (by omega))
      refine ⟨u, ?_, ?_⟩
      · unfold kdemoLoop
        dsimp only
        rw [if_neg (by rw [hid]; exact Int.not_lt.mpr (hids i hi)), helapse,
          Option.bind_some, hloop, Option.map_some, hid]
        show some (_, u) = some (_ :: (Fifo.rota n (q ++ [i])).map _, u)
        rw [hrest]
        congr 3
        refine List.map_congr_left fun j hj => ?_
        rw [hgiven.id j (hmem j hj)]
      · have hall := hgiven.trans hmore
        have hcount : (fun j => (if j = i then 1 else 0)
            + (Fifo.rota n (k :: q')).count j)
              = fun j => (Fifo.rota (n + 1) (i :: q)).count j := by
          funext j
          show _ = (i :: Fifo.rota n (q ++ [i])).count j
          rw [hrest, List.count_cons, Nat.add_comm]
          congr 1
          by_cases hji : j = i
          · simp [hji]
          · have hij : i ≠ j := fun h => hji h.symm
            simp [hji, hij]
        rw [hcount] at hall
        exact hall

end Turn

-- =============================================================== the result

/-- In any state of the scheduler, whatever calls led to it, a demonstration
of `n` picks ends. It prints the tasks that can run, in turn and again from
the first one, or that the scheduler is idle. Every task that can run gets
its share of the slices, one more or less, each of exactly its quantum; no
other task gets any. -/
theorem sched_kdemo_round_robin (cap : Nat) (ops : List Op) (n : Nat)
    {turns : Nat}
    (hids : ∀ i < cap, 0 ≤ ((exec step (schedInit cap) ops).task i).id)
    (hturns : ∀ i < cap,
      ((exec step (schedInit cap) ops).task i).reload ≤ turns) :
    let s := exec step (schedInit cap) ops
    let q := readyQueue (requeue s)
    (∀ i, i ∈ q ↔ i < cap ∧ Runnable (s.task i))
      ∧ (∃ t, kdemoLoop turns n s
          = some (if q = [] then ([.idle] : List KdemoItem).take n
            else (Fifo.rota n q).map fun i => .task (s.task i).id, t)
        ∧ ∀ i < cap, (t.task i).ran
          ≡ (s.task i).ran + (Fifo.rota n q).count i * (s.task i).reload
            [MOD 2 ^ 32])
      ∧ ∀ i, if i ∈ q then n / q.length ≤ (Fifo.rota n q).count i
            ∧ (Fifo.rota n q).count i ≤ n / q.length + 1
          else (Fifo.rota n q).count i = 0 := by
  have hs : Sane (exec step (schedInit cap) ops) :=
    sane_exec (sane_init cap) ops
  have hcap : (exec step (schedInit cap) ops).cap = cap :=
    (cap_exec (runningInv_init cap) ops).trans (cap_schedInit cap)
  generalize exec step (schedInit cap) ops = s at *
  subst hcap
  refine ⟨fun i => mem_requeue hs.inv, ?_, fun i => ?_⟩
  · cases hq : readyQueue (requeue s) with
    | nil =>
        obtain ⟨t, hloop, hgiven⟩ := @kdemo_idle s turns hs hq n
        refine ⟨t, ?_, fun i hi => ?_⟩
        · rw [if_pos rfl]
          exact hloop
        · rw [Fifo.rota_nil]
          exact hgiven.ran i hi
    | cons k q =>
        obtain ⟨t, hloop, hgiven⟩ := kdemo_serves hs hq hids hturns n
        refine ⟨t, ?_, hgiven.ran⟩
        rw [if_neg (List.cons_ne_nil k q)]
        exact hloop
  · split
    · next hmem =>
        exact Fifo.count_rota (nodup_readyQueue _) hmem n
    · next hmem =>
        exact List.count_eq_zero.mpr fun h => hmem (Fifo.mem_rota h)

/-- The demonstration as the kernel has it: three tasks, ten picks. -/
theorem sched_kdemo_round_robin_kinit :
    let s := exec step (schedInit NTASK) [.add 0 5, .add 1 3, .add 2 2]
    let q := readyQueue (requeue s)
    (∀ i, i ∈ q ↔ i < NTASK ∧ Runnable (s.task i))
      ∧ (∃ t, kdemoLoop 5 10 s
          = some (if q = [] then ([.idle] : List KdemoItem).take 10
            else (Fifo.rota 10 q).map fun i => .task (s.task i).id, t)
        ∧ ∀ i < NTASK, (t.task i).ran
          ≡ (s.task i).ran + (Fifo.rota 10 q).count i * (s.task i).reload
            [MOD 2 ^ 32])
      ∧ ∀ i, if i ∈ q then 10 / q.length ≤ (Fifo.rota 10 q).count i
            ∧ (Fifo.rota 10 q).count i ≤ 10 / q.length + 1
          else (Fifo.rota 10 q).count i = 0 := by
  refine sched_kdemo_round_robin NTASK _ 10 ?_ ?_
  · decide
  · decide

example : exec step (schedInit NTASK) [.add 0 5, .add 1 3, .add 2 2]
    = schedKinit := by
  decide

end Thuos.Sched
