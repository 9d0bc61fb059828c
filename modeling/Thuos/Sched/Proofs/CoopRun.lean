/-
A run of cooperative tasks is a queue of jobs that are served in turn.

The READY tasks are the queue (`ReadyQueue`), and a task with `k` turns
left is a job with `k` turns. Between two calls of `coop_yield` one job is
being served (`Serving`); a call of `coop_yield` puts the caller where the
scheduler says and goes on with the front of the queue (`Yielding`,
`yield_serves`), or with main when the queue is empty (`yield_returns`).
The induction is the one of the queue: `Fifo.served` lists what happens, and
each of its two steps is one turn of `coop_worker` (`serving_turn`,
`serving_exit`).

That a context goes on with its own code rests on `Coherent`: the stack
pointer in `ctask[i].esp` is the one that was saved last, it is on the
stack of `i`, and the frame under it is the one that was saved with it.
-/
import Thuos.Sched.Coop
import Thuos.Sched.Proofs.ReadyQueue
import Thuos.Lib.Fifo

namespace Thuos.Sched

open Coop Fifo

variable {E : Type*}

-- ========================================================== what is stated

/-- The stack pointer that a context saved last, or that `task_init` gave
it. -/
def lastSaved (p : StackPtrs E) : List (CoopEvent E) → Int → Option E
  | [], c => if c < 0 then none else some (p.top c.toNat)
  | .transfer prev _ _ _ saved _ :: log, c =>
      if prev = c then some saved else lastSaved p log c
  | _ :: log, c => lastSaved p log c

/-- What each event promises, after the events of `log`: a transfer goes
where the scheduler says and `current` says so too, not to a task that has
exited, with the stack pointer that was saved last, and to main only when
all tasks have exited; main goes on once, when all have exited. -/
def SoundEvent (p : StackPtrs E) (n : Nat) (log : List (CoopEvent E)) :
    CoopEvent E → Prop
  | .transfer _ next current running _ loaded =>
      current = next ∧ running = next ∧ .done next ∉ log
        ∧ lastSaved p log next = some loaded
        ∧ (next = -1 → ∀ i < n, .done (i : Int) ∈ log)
  | .back => (∀ i < n, .done (i : Int) ∈ log) ∧ .back ∉ log
  | .tick _ => True
  | .done _ => True

/-- Every event of a log is sound. -/
def Sound (p : StackPtrs E) (n : Nat) : List (CoopEvent E) → Prop
  | [] => True
  | e :: log => SoundEvent p n log e ∧ Sound p n log

/-- The tasks that take a step, in order. -/
def ticks (log : List (CoopEvent E)) : List Int :=
  (log.filterMap fun | .tick me => some me | _ => none).reverse

/-- The tasks that exit, in order. -/
def dones (log : List (CoopEvent E)) : List Int :=
  (log.filterMap fun | .done me => some me | _ => none).reverse

/-- A transfer to main. -/
def isToMain : CoopEvent E → Bool
  | .transfer _ next _ _ _ _ => next = -1
  | _ => false

-- ============================================================== the invariant

section Invariant

variable (p : StackPtrs E) (iters : Nat → Nat) (n : Nat)

/-- The code of a job: a task with `x.2` turns left goes on here. -/
def AtTurn (x : Nat × Nat) (pc : Pc) : Prop :=
  (pc = .entry ∧ x.2 = iters x.1)
    ∨ (pc = .loop x.1 (iters x.1 - x.2) ∧ x.2 ≤ iters x.1)

/-- Under the saved stack pointer of the task is the code of its job. -/
def Waiting (s : Coop E) (x : Nat × Nat) : Prop :=
  ∃ pc, s.frames (s.ctask x.1) = some pc ∧ AtTurn iters x pc

/-- The saved stack pointers and the log belong together, when the tasks
that have not exited are those of `q`. -/
structure Coherent (s : Coop E) (q : List (Nat × Nat)) : Prop where
  names : ∀ x ∈ q, x.1 < n
  owned : ∀ i < n, p.owner (s.ctask i) = i
  saved : ∀ i < n, lastSaved p s.log i = some (s.ctask i)
  sound : Sound p n s.log
  alive : ∀ x ∈ q, .done (x.1 : Int) ∉ s.log
  exited : ∀ i < n, i ∈ q.map (·.1) ∨ .done (i : Int) ∈ s.log
  main : .done (-1) ∉ s.log
  quiet : .back ∉ s.log ∧ s.log.countP isToMain = 0

/-- Main waits for the tasks. -/
structure MainWaits (s : Coop E) : Prop where
  frame : s.frames s.cmain = some .back
  owned : p.owner s.cmain = -1
  saved : lastSaved p s.log (-1) = some s.cmain

/-- The context `prev` is about to call `coop_yield`, and goes on with `pc`
when its turn comes; the scheduler's queue will be `q`. -/
structure Yielding (s : Coop E) (prev : Int) (pc : Pc) (q : List (Nat × Nat)) :
    Prop where
  inv : RunningInv s.csched
  indexed : Indexed s.csched
  queue : readyQueue (requeue s.csched) = q.map (·.1)
  current : s.current = prev
  next : ∀ x ∈ q, (x.1 : Int) = prev → AtTurn iters x pc
  waiting : ∀ x ∈ q, (x.1 : Int) ≠ prev → Waiting iters s x
  main : prev = -1 ∧ pc = .back
    ∨ (∃ i < n, prev = (i : Int)) ∧ MainWaits p s
  coherent : Coherent p n s q

/-- The task `x.1` runs, with `x.2` turns left, and `q` waits. -/
structure Serving (s : Coop E) (x : Nat × Nat) (q : List (Nat × Nat)) :
    Prop where
  inv : RunningInv s.csched
  indexed : Indexed s.csched
  slot : x.1 < s.csched.cap
  running : s.csched.current = x.1
  behind : CursorBehind s.csched x.1
  queue : readyQueue s.csched = q.map (·.1)
  current : s.current = x.1
  pc : AtTurn iters x s.pc
  waiting : ∀ y ∈ q, Waiting iters s y
  main : MainWaits p s
  coherent : Coherent p n s (x :: q)

/-- Main is about to go on, with everything behind it, after `c` transfers
to it. -/
structure Returning (s : Coop E) (c : Nat) : Prop where
  pc : s.pc = .back
  sound : Sound p n s.log
  exited : ∀ i < n, .done (i : Int) ∈ s.log
  quiet : .back ∉ s.log
  toMain : s.log.countP isToMain = c

end Invariant

section Log

theorem ticks_tick (me : Int) (log : List (CoopEvent E)) :
    ticks (.tick me :: log) = ticks log ++ [me] := by
  simp [ticks]

theorem dones_done (me : Int) (log : List (CoopEvent E)) :
    dones (.done me :: log) = dones log ++ [me] := by
  simp [dones]

variable {p : StackPtrs E} {iters : Nat → Nat} {n : Nat} {s : Coop E}
  {q : List (Nat × Nat)}

/-- Pointers and log do not depend on the rest of the state. -/
theorem Coherent.of_eq {t : Coop E} (h : Coherent p n s q)
    (hctask : t.ctask = s.ctask) (hlog : t.log = s.log) :
    Coherent p n t q := by
  obtain ⟨hn, ho, hs, hso, ha, he, hm, hqu⟩ := h
  rw [← hctask] at ho hs
  rw [← hlog] at hs hso ha he hm hqu
  exact ⟨hn, ho, hs, hso, ha, he, hm, hqu⟩

/-- With nothing logged, every task is at the top of its stack. -/
theorem coherent_start (hlog : s.log = []) (htop : ∀ j < n, s.ctask j = p.top j)
    (hq : q.map (·.1) = List.range n) : Coherent p n s q where
  names := by
    intro x hx
    have hmem : x.1 ∈ q.map (·.1) := List.mem_map.mpr ⟨x, hx, rfl⟩
    rw [hq] at hmem
    exact List.mem_range.mp hmem
  owned := by
    intro i hi
    rw [htop i hi]
    exact p.owner_top i
  saved := by
    intro i hi
    rw [hlog, htop i hi, lastSaved, if_neg (by omega), Int.toNat_natCast]
  sound := by
    rw [hlog]
    trivial
  alive := by simp [hlog]
  exited := by
    intro i hi
    left
    rw [hq]
    exact List.mem_range.mpr hi
  main := by simp [hlog]
  quiet := by simp [hlog]

/-- A step leaves the log sound, and its task in the queue. -/
theorem coherent_tick {x : Nat × Nat} (h : Coherent p n s (x :: q)) (me : Int)
    (m : Nat) : Coherent p n (s.emit (.tick me)) (q ++ [(x.1, m)]) := by
  refine ⟨fun y hy => ?_, h.owned, h.saved, ⟨trivial, h.sound⟩,
    fun y hy => ?_, fun i hi => ?_, ?_, ?_, ?_⟩
  · cases List.mem_append.mp hy with
    | inl hy => exact h.names y (by simp [hy])
    | inr hy =>
        cases List.mem_singleton.mp hy
        exact h.names x (by simp)
  · have halive : .done (y.1 : Int) ∉ s.log := by
      cases List.mem_append.mp hy with
      | inl hy => exact h.alive y (by simp [hy])
      | inr hy =>
          cases List.mem_singleton.mp hy
          exact h.alive x (by simp)
    simpa [emit] using halive
  · have hor := h.exited i hi
    simp only [List.map_cons, List.mem_cons] at hor
    simp only [emit, List.map_append, List.map_cons, List.map_nil,
      List.mem_append, List.mem_cons, List.not_mem_nil, or_false, reduceCtorEq,
      false_or]
    tauto
  · simpa [emit] using h.main
  · simpa [emit] using h.quiet.1
  · exact h.quiet.2

/-- An exit takes the task out of the queue. -/
theorem coherent_done {x : Nat × Nat} (h : Coherent p n s (x :: q))
    (hx : x.1 ∉ q.map (·.1)) : Coherent p n (s.emit (.done x.1)) q := by
  refine ⟨fun y hy => h.names y (by simp [hy]), h.owned, h.saved,
    ⟨trivial, h.sound⟩, fun y hy => ?_, fun i hi => ?_, ?_, ?_, ?_⟩
  · have hne : y.1 ≠ x.1 := by
      intro heq
      exact hx (List.mem_map.mpr ⟨y, hy, heq⟩)
    have halive := h.alive y (by simp [hy])
    simpa [emit, hne] using halive
  · have hor := h.exited i hi
    simp only [List.map_cons, List.mem_cons] at hor
    simp only [emit, List.mem_cons, CoopEvent.done.injEq, Int.natCast_inj]
    tauto
  · have hmain := h.main
    simp only [emit, List.mem_cons, CoopEvent.done.injEq]
    rintro (heq | hmem)
    · omega
    · exact hmain hmem
  · simpa [emit] using h.quiet.1
  · exact h.quiet.2

/-- The running task does not wait. -/
theorem Serving.notMem {x : Nat × Nat} (h : Serving p iters n s x q) :
    x.1 ∉ q.map (·.1) := by
  rw [← h.queue]
  intro hmem
  obtain ⟨hcap, hready⟩ := mem_readyQueue.mp hmem
  rw [(h.inv.running_iff x.1 hcap).mpr h.running] at hready
  cases hready

/-- The scheduler runs task `i`, and the tasks `js` wait. -/
structure Picked (t : SchedT) (i : Nat) (js : List Nat) : Prop where
  inv : RunningInv t
  indexed : Indexed t
  slot : i < t.cap
  running : t.current = i
  behind : CursorBehind t i
  queue : readyQueue t = js

/-- Nobody else waits: no switch, and the caller goes on. -/
theorem serves_caller {prev : Int} {pc : Pc} {x : Nat × Nat}
    (h : Yielding p iters n s prev pc (x :: q)) (hself : (x.1 : Int) = prev)
    (hothers : ∀ y ∈ q, (y.1 : Int) ≠ x.1) {t : SchedT}
    (hpicked : Picked t x.1 (q.map (·.1))) :
    Serving p iters n { s with csched := t, pc := pc } x q := by
  have hmain : MainWaits p s := by
    rcases h.main with ⟨hprev, -⟩ | ⟨-, hmain⟩
    · omega
    · exact hmain
  exact {
    inv := hpicked.inv
    indexed := hpicked.indexed
    slot := hpicked.slot
    running := hpicked.running
    behind := hpicked.behind
    queue := hpicked.queue
    current := h.current.trans hself.symm
    pc := h.next x (by simp) hself
    waiting := fun y hy => h.waiting y (by simp [hy]) fun heq =>
      hothers y hy (heq.trans hself.symm)
    main := ⟨hmain.frame, hmain.owned, hmain.saved⟩
    coherent := h.coherent.of_eq rfl rfl }

end Log

-- =============================================================== one switch

variable [DecidableEq E]

section Switch

variable {p : StackPtrs E} {iters : Nat → Nat} {n : Nat} {s : Coop E}

theorem contextSwitch_log (prev next : Int) (pc : Pc) :
    (contextSwitch p s prev next pc).log
      = .transfer prev next s.current (schedCurrent s.csched)
          (p.saved prev s.log) (s.esp next) :: s.log := by
  unfold contextSwitch setEsp
  dsimp only
  split
  · rfl
  · rfl

theorem contextSwitch_csched (prev next : Int) (pc : Pc) :
    (contextSwitch p s prev next pc).csched = s.csched
      ∧ (contextSwitch p s prev next pc).current = s.current := by
  unfold contextSwitch setEsp
  dsimp only
  split
  · exact ⟨rfl, rfl⟩
  · exact ⟨rfl, rfl⟩

theorem contextSwitch_frames (prev next : Int) (pc : Pc) :
    (contextSwitch p s prev next pc).frames
      = Function.update s.frames (p.saved prev s.log) (some pc) := by
  unfold contextSwitch setEsp
  dsimp only
  split
  · rfl
  · rfl

theorem contextSwitch_ctask (prev next : Int) (pc : Pc) (i : Nat) :
    (contextSwitch p s prev next pc).ctask i
      = if prev = i then p.saved prev s.log else s.ctask i := by
  unfold contextSwitch setEsp
  dsimp only
  by_cases hneg : prev < 0
  · rw [if_pos hneg, if_neg (by omega)]
    rfl
  · rw [if_neg hneg]
    show Function.update s.ctask prev.toNat (p.saved prev s.log) i = _
    by_cases hi : prev = i
    · rw [if_pos hi, hi, Int.toNat_natCast, Function.update_self]
    · rw [if_neg hi, Function.update_of_ne (by omega)]

theorem contextSwitch_cmain (prev next : Int) (pc : Pc) :
    (contextSwitch p s prev next pc).cmain
      = if prev < 0 then p.saved prev s.log else s.cmain := by
  unfold contextSwitch setEsp
  dsimp only
  split
  · rfl
  · rfl

/-- The frame that the switch goes on with is the one under the saved stack
pointer of the next context: what it saves itself is on another stack. -/
theorem contextSwitch_pc {prev next : Int} {pc pc' : Pc}
    (hne : next ≠ prev) (howner : p.owner (s.esp next) = next)
    (hframe : s.frames (s.esp next) = some pc') :
    (contextSwitch p s prev next pc).pc = pc' := by
  have hesp : s.esp next ≠ p.saved prev s.log := by
    intro heq
    rw [heq, p.owner_saved] at howner
    exact hne howner.symm
  unfold contextSwitch setEsp
  dsimp only
  split
  · show (Function.update s.frames (p.saved prev s.log) (some pc)
      (s.esp next)).getD .lost = pc'
    rw [Function.update_of_ne hesp, hframe]
    rfl
  · show (Function.update s.frames (p.saved prev s.log) (some pc)
      (s.esp next)).getD .lost = pc'
    rw [Function.update_of_ne hesp, hframe]
    rfl

/-- A switch from one task to another keeps pointers and log together. -/
theorem coherent_switch {q : List (Nat × Nat)} (h : Coherent p n s q)
    {prev next : Int} (pc : Pc) (hnext : next ≠ -1)
    (hsound : SoundEvent p n s.log
      (.transfer prev next s.current (schedCurrent s.csched)
        (p.saved prev s.log) (s.esp next))) :
    Coherent p n (contextSwitch p s prev next pc) q := by
  have hlog := contextSwitch_log (p := p) (s := s) prev next pc
  have hctask := contextSwitch_ctask (p := p) (s := s) prev next pc
  refine ⟨h.names, fun i hi => ?_, fun i hi => ?_, ?_, fun x hx => ?_,
    fun i hi => ?_, ?_, ?_, ?_⟩
  · rw [hctask]
    split
    · next heq => rw [p.owner_saved, heq]
    · exact h.owned i hi
  · rw [hlog, hctask, lastSaved]
    split
    · rfl
    · exact h.saved i hi
  · rw [hlog]
    exact ⟨hsound, h.sound⟩
  · rw [hlog]
    simpa using h.alive x hx
  · rw [hlog]
    simpa using h.exited i hi
  · rw [hlog]
    simpa using h.main
  · rw [hlog]
    simpa using h.quiet.1
  · rw [hlog, List.countP_cons_of_neg]
    · exact h.quiet.2
    · simpa [isToMain] using hnext

/-- Main is left waiting, or waits on. -/
theorem mainWaits_switch {prev : Int} (next : Int) {pc : Pc}
    (h : prev = -1 ∧ pc = .back ∨ (∃ i < n, prev = (i : Int)) ∧ MainWaits p s) :
    MainWaits p (contextSwitch p s prev next pc) := by
  have hlog := contextSwitch_log (p := p) (s := s) prev next pc
  have hframes := contextSwitch_frames (p := p) (s := s) prev next pc
  have hcmain := contextSwitch_cmain (p := p) (s := s) prev next pc
  rcases h with ⟨hprev, hpc⟩ | ⟨⟨i, -, hprev⟩, hmain⟩
  · rw [if_pos (by omega)] at hcmain
    refine ⟨?_, ?_, ?_⟩
    · rw [hframes, hcmain, Function.update_self, hpc]
    · rw [hcmain, p.owner_saved, hprev]
    · rw [hlog, lastSaved, if_pos hprev, hcmain]
  · rw [if_neg (by omega)] at hcmain
    have hne : s.cmain ≠ p.saved prev s.log := by
      intro heq
      have howner := hmain.owned
      rw [heq, p.owner_saved] at howner
      omega
    refine ⟨?_, ?_, ?_⟩
    · rw [hframes, hcmain, Function.update_of_ne hne]
      exact hmain.frame
    · rw [hcmain]
      exact hmain.owned
    · rw [hlog, lastSaved, if_neg (by omega), hcmain]
      exact hmain.saved

/-- A task waits after the switch: the one that yields, or one that has
waited before. -/
theorem waiting_switch {prev next : Int} {pc : Pc} {x : Nat × Nat}
    (howned : p.owner (s.ctask x.1) = x.1)
    (hself : (x.1 : Int) = prev → AtTurn iters x pc)
    (hwait : (x.1 : Int) ≠ prev → Waiting iters s x) :
    Waiting iters (contextSwitch p s prev next pc) x := by
  have hframes := contextSwitch_frames (p := p) (s := s) prev next pc
  have hctask := contextSwitch_ctask (p := p) (s := s) prev next pc x.1
  unfold Waiting
  by_cases hx : prev = x.1
  · rw [if_pos hx] at hctask
    refine ⟨pc, ?_, hself hx.symm⟩
    rw [hctask, hframes, Function.update_self]
  · rw [if_neg hx] at hctask
    obtain ⟨pc', hframe, hturn⟩ := hwait (Ne.symm hx)
    refine ⟨pc', ?_, hturn⟩
    rw [hctask, hframes, Function.update_of_ne]
    · exact hframe
    · intro heq
      rw [heq, p.owner_saved] at howned
      exact hx howned

end Switch

-- ================================================================ one yield

section Yield

variable {p : StackPtrs E} {iters : Nat → Nat} {n : Nat} {s : Coop E}
  {prev : Int} {pc : Pc} {q : List (Nat × Nat)}

/-- The scheduler names the task it has picked. -/
theorem pick_id {t : SchedT} {i : Nat} {js : List Nat} (h : RunningInv t)
    (hx : Indexed t) (hq : readyQueue (requeue t) = i :: js) :
    (schedPickNext t).2 = i ∧ schedCurrent (schedPickNext t).1 = i := by
  obtain ⟨hi, hid, hcur, -, hcap, -, htask⟩ := pick_front h hq
  have hmem : i ∈ readyQueue (requeue t) := by simp [hq]
  have hrunnable := (requeue_ready_iff h hi).mp (mem_readyQueue.mp hmem).2
  have hindex : (t.task i).id = i := by
    refine hx i hi fun hunused => ?_
    rcases hrunnable with hready | hrun
    · rw [hunused] at hready
      cases hready
    · rw [hunused] at hrun
      cases hrun
  refine ⟨hid.trans hindex, ?_⟩
  unfold schedCurrent
  rw [hcur, if_neg (by omega), Int.toNat_natCast, (htask i hi).1, hindex]

/-- What `coop_yield` does when the scheduler has picked a task. -/
theorem coopYield_task {j : Nat} (pc : Pc) (hcur : s.current = prev)
    (hpick : (schedPickNext s.csched).2 = j) :
    coopYield p s pc
      = if (j : Int) = prev then
          { s with csched := (schedPickNext s.csched).1, pc := pc }
        else contextSwitch p
          { s with csched := (schedPickNext s.csched).1, current := j }
          prev j pc := by
  have hneg : ¬ (j : Int) < 0 := by omega
  unfold coopYield
  dsimp only
  simp only [hpick, hneg, if_false, hcur]

/-- The tasks behind the one that is picked are others. -/
theorem picked_ne {t : SchedT} {i : Nat} {js : List Nat} (h : RunningInv t)
    (hq : readyQueue (requeue t) = i :: js) : i ∉ js := by
  obtain ⟨-, -, hcur, -, -, hrest, -⟩ := pick_front h hq
  intro hmem
  rw [← hrest] at hmem
  obtain ⟨hcap, hready⟩ := mem_readyQueue.mp hmem
  have hrun := ((runningInv_pickNext h).running_iff i hcap).mpr hcur
  rw [hrun] at hready
  cases hready

/-- A pick from a queue with `i` in front. -/
theorem picked_front {t : SchedT} {i : Nat} {js : List Nat} (h : RunningInv t)
    (hx : Indexed t) (hq : readyQueue (requeue t) = i :: js) :
    Picked (schedPickNext t).1 i js := by
  obtain ⟨hi, -, hcur, hbehind, hcap, hrest, -⟩ := pick_front h hq
  exact {
    inv := runningInv_pickNext h
    indexed := indexed_pick h hx hq
    slot := by
      rw [hcap]
      exact hi
    running := hcur
    behind := hbehind
    queue := hrest }

/-- The switch to the task in front: it goes on where it waits. -/
theorem serves_other {x : Nat × Nat}
    (h : Yielding p iters n s prev pc (x :: q)) (hself : (x.1 : Int) ≠ prev)
    {t : SchedT} (hpicked : Picked t x.1 (q.map (·.1)))
    (hsched : schedCurrent t = x.1) :
    Serving p iters n
      (contextSwitch p { s with csched := t, current := x.1 } prev x.1 pc)
      x q := by
  have hx : x.1 < n := h.coherent.names x (by simp)
  obtain ⟨pc', hframe, hturn⟩ := h.waiting x (by simp) hself
  have howned := h.coherent.owned x.1 hx
  generalize hs₁ : { s with csched := t, current := (x.1 : Int) } = s₁
  have hsched₁ : s₁.csched = t := by rw [← hs₁]
  have hesp : s₁.esp x.1 = s.ctask x.1 := by
    rw [← hs₁]
    show (if (x.1 : Int) < 0 then s.cmain else s.ctask (x.1 : Int).toNat) = _
    rw [if_neg (by omega), Int.toNat_natCast]
  have hframes : s₁.frames = s.frames := by rw [← hs₁]
  have hctask : s₁.ctask = s.ctask := by rw [← hs₁]
  have hwait : ∀ y, Waiting iters s y → Waiting iters s₁ y := by
    intro y hy
    unfold Waiting
    rw [hframes, hctask]
    exact hy
  have hmainWaits : MainWaits p s → MainWaits p s₁ := by
    intro hmain
    rw [← hs₁]
    exact ⟨hmain.frame, hmain.owned, hmain.saved⟩
  have hcoherent : Coherent p n s₁ (x :: q) := by
    rw [← hs₁]
    exact h.coherent.of_eq rfl rfl
  have hsound : SoundEvent p n s₁.log
      (.transfer prev x.1 s₁.current (schedCurrent s₁.csched)
        (p.saved prev s₁.log) (s₁.esp x.1)) := by
    refine ⟨by rw [← hs₁], ?_, hcoherent.alive x (by simp), ?_,
      fun hneg => by omega⟩
    · rw [hsched₁]
      exact hsched
    · rw [hesp, ← hctask]
      exact hcoherent.saved x.1 hx
  have hmain : prev = -1 ∧ pc = .back
      ∨ (∃ i < n, prev = (i : Int)) ∧ MainWaits p s₁ :=
    h.main.imp id fun hmain => ⟨hmain.1, hmainWaits hmain.2⟩
  obtain ⟨hcs, hcu⟩ := contextSwitch_csched (p := p) (s := s₁) prev x.1 pc
  rw [hsched₁] at hcs
  exact {
    inv := hcs ▸ hpicked.inv
    indexed := hcs ▸ hpicked.indexed
    slot := hcs ▸ hpicked.slot
    running := hcs ▸ hpicked.running
    behind := hcs ▸ hpicked.behind
    queue := hcs ▸ hpicked.queue
    current := by rw [hcu, ← hs₁]
    pc := by
      rw [contextSwitch_pc hself (by rw [hesp]; exact howned)
        (by rw [hesp, hframes]; exact hframe)]
      exact hturn
    waiting := by
      intro y hy
      have hy' : y ∈ x :: q := by simp [hy]
      exact waiting_switch
        (hcoherent.owned y.1 (hcoherent.names y hy')) (h.next y hy')
        fun hne => hwait y (h.waiting y hy' hne)
    main := mainWaits_switch x.1 hmain
    coherent := coherent_switch hcoherent pc (by omega) hsound }

/-- A yield goes on with the front of the queue. -/
theorem yield_serves {x : Nat × Nat}
    (h : Yielding p iters n s prev pc (x :: q)) :
    Serving p iters n (coopYield p s pc) x q
      ∧ ticks (coopYield p s pc).log = ticks s.log
      ∧ dones (coopYield p s pc).log = dones s.log := by
  have hq := h.queue
  rw [List.map_cons] at hq
  have hpicked := picked_front h.inv h.indexed hq
  obtain ⟨hpick, hsched⟩ := pick_id h.inv h.indexed hq
  have hothers : ∀ y ∈ q, (y.1 : Int) ≠ x.1 := by
    intro y hy heq
    apply picked_ne h.inv hq
    exact List.mem_map.mpr ⟨y, hy, by omega⟩
  rw [coopYield_task (p := p) pc h.current hpick]
  by_cases hself : (x.1 : Int) = prev
  · rw [if_pos hself]
    exact ⟨serves_caller h hself hothers hpicked, rfl, rfl⟩
  · rw [if_neg hself, contextSwitch_log]
    exact ⟨serves_other h hself hpicked hsched, rfl, rfl⟩

/-- A yield with an empty queue goes on with main. -/
theorem yield_returns (h : Yielding p iters n s prev pc []) :
    Returning p n (coopYield p s pc) (if prev = -1 then 0 else 1)
      ∧ ticks (coopYield p s pc).log = ticks s.log
      ∧ dones (coopYield p s pc).log = dones s.log := by
  have hpick := pick_empty h.queue
  have hexited : ∀ i < n, .done (i : Int) ∈ s.log := by
    intro i hi
    exact (h.coherent.exited i hi).resolve_left (by simp)
  obtain ⟨hquiet, hcount⟩ := h.coherent.quiet
  have hyield : coopYield p s pc
      = if (-1 : Int) = prev then
          { s with csched := (schedPickNext s.csched).1, pc := pc }
        else contextSwitch p
          { s with csched := (schedPickNext s.csched).1, current := -1 }
          prev (-1) pc := by
    unfold coopYield
    dsimp only
    simp only [hpick, h.current]
    rfl
  rw [hyield]
  rcases h.main with ⟨hprev, hpc⟩ | ⟨⟨i, -, hprev⟩, hmain⟩
  · -- no tasks at all: main was never left
    rw [if_pos hprev.symm]
    rw [if_pos hprev]
    exact ⟨⟨hpc, h.coherent.sound, hexited, hquiet, hcount⟩, rfl, rfl⟩
  · rw [if_neg (by omega)]
    let s₁ : Coop E :=
      { s with csched := (schedPickNext s.csched).1, current := -1 }
    rw [if_neg (by omega)]
    show Returning p n (contextSwitch p s₁ prev (-1) pc) 1
      ∧ ticks (contextSwitch p s₁ prev (-1) pc).log = _
      ∧ dones (contextSwitch p s₁ prev (-1) pc).log = _
    have hlog := contextSwitch_log (p := p) (s := s₁) prev (-1) pc
    have hsched : schedCurrent s₁.csched = -1 := by
      show schedCurrent (schedPickNext s.csched).1 = -1
      rw [hpick]
      rfl
    refine ⟨⟨?_, ?_, ?_, ?_, ?_⟩, ?_, ?_⟩
    · exact contextSwitch_pc (by omega) hmain.owned hmain.frame
    · rw [hlog]
      exact ⟨⟨rfl, hsched, h.coherent.main, hmain.saved, fun _ => hexited⟩,
        h.coherent.sound⟩
    · intro i hi
      rw [hlog]
      exact List.mem_cons_of_mem _ (hexited i hi)
    · rw [hlog]
      simpa using hquiet
    · rw [hlog, List.countP_cons_of_pos (by simp [isToMain])]
      exact congrArg (· + 1) hcount
    · rw [hlog]
      rfl
    · rw [hlog]
      rfl

end Yield

-- ================================================================= one turn

section Turn

variable {p : StackPtrs E} {iters : Nat → Nat} {n : Nat} {s : Coop E}
  {q : List (Nat × Nat)}

/-- The running task is at the head of its loop, or one step before. -/
theorem serving_loop {x : Nat × Nat} (h : Serving p iters n s x q) :
    ∃ t, (coopStep iters p)^[t] s
        = { s with pc := .loop x.1 (iters x.1 - x.2) }
      ∧ x.2 ≤ iters x.1
      ∧ Serving p iters n { s with pc := .loop x.1 (iters x.1 - x.2) } x q := by
  have hserving (hle : x.2 ≤ iters x.1) :
      Serving p iters n { s with pc := .loop x.1 (iters x.1 - x.2) } x q :=
    ⟨h.inv, h.indexed, h.slot, h.running, h.behind, h.queue, h.current,
      Or.inr ⟨rfl, hle⟩, h.waiting, ⟨h.main.frame, h.main.owned, h.main.saved⟩,
      h.coherent.of_eq rfl rfl⟩
  rcases h.pc with ⟨hpc, hturns⟩ | ⟨hpc, hle⟩
  · refine ⟨1, ?_, Nat.le_of_eq hturns, hserving (Nat.le_of_eq hturns)⟩
    show coopStep iters p s = _
    unfold coopStep
    rw [hpc]
    dsimp only
    rw [h.current, hturns, Nat.sub_self]
  · refine ⟨0, ?_, hle, hserving hle⟩
    show s = _
    rw [← hpc]

/-- A turn: the task takes a step and goes to the back of the queue. -/
theorem serving_turn {i m : Nat} (h : Serving p iters n s (i, m + 1) q)
    (hpc : s.pc = .loop i (iters i - (m + 1))) (hle : m + 1 ≤ iters i) :
    coopStep iters p s
        = coopYield p (s.emit (.tick i)) (.loop i (iters i - m))
      ∧ Yielding p iters n (s.emit (.tick i)) i (.loop i (iters i - m))
          (q ++ [(i, m)]) := by
  have hi : i < n := h.coherent.names (i, m + 1) (by simp)
  have hnext : iters i - (m + 1) + 1 = iters i - m := by omega
  constructor
  · unfold coopStep
    rw [hpc]
    dsimp only
    rw [Int.toNat_natCast, if_pos (by omega), hnext]
  · refine ⟨h.inv, h.indexed, ?_, h.current, fun y hy heq => ?_,
      fun y hy hne => ?_, Or.inr ⟨⟨i, hi, rfl⟩,
        h.main.frame, h.main.owned, h.main.saved⟩,
      coherent_tick h.coherent i m⟩
    · show readyQueue (requeue s.csched) = _
      rw [requeue_back h.inv h.slot h.running h.behind, h.queue,
        List.map_append]
      rfl
    · cases List.mem_append.mp hy with
      | inl hy =>
          refine absurd (List.mem_map.mpr ⟨y, hy, ?_⟩) h.notMem
          show y.1 = i
          omega
      | inr hy =>
          cases List.mem_singleton.mp hy
          exact Or.inr ⟨rfl, Nat.le_of_succ_le hle⟩
    · cases List.mem_append.mp hy with
      | inl hy => exact h.waiting y hy
      | inr hy =>
          cases List.mem_singleton.mp hy
          exact absurd rfl hne

/-- The task exits, and is in the queue no more. -/
theorem serving_exit {i : Nat} (h : Serving p iters n s (i, 0) q)
    (hpc : s.pc = .loop i (iters i)) :
    coopStep iters p s
        = coopYield p
          { s.emit (.done i) with csched := schedExit s.csched i } .dead
      ∧ Yielding p iters n
          { s.emit (.done i) with csched := schedExit s.csched i } i .dead
          q := by
  obtain ⟨hqueue, hindexed, -, hidle⟩ :=
    exit_queue h.inv h.indexed h.slot h.running
  have hi : i < n := h.coherent.names (i, 0) (by simp)
  constructor
  · unfold coopStep
    rw [hpc]
    dsimp only
    rw [Int.toNat_natCast, if_neg (by omega)]
  · refine ⟨runningInv_retire h.inv _ (by decide), hindexed, ?_, h.current,
      fun y hy heq => ?_, fun y hy _ => h.waiting y hy,
      Or.inr ⟨⟨i, hi, rfl⟩,
        h.main.frame, h.main.owned, h.main.saved⟩,
      (coherent_done h.coherent h.notMem).of_eq rfl rfl⟩
    · show readyQueue (requeue (schedExit s.csched i)) = _
      rw [requeue_idle (by rw [hidle]; decide), hqueue, h.queue]
    · refine absurd (List.mem_map.mpr ⟨y, hy, ?_⟩) h.notMem
      show y.1 = i
      omega

end Turn

-- =================================================================== the run

section Run

variable {p : StackPtrs E} {iters : Nat → Nat} {n : Nat}

/-- From a call of `coop_yield` on, the run serves the queue and ends in
main. -/
theorem yielding_run (q : List (Nat × Nat)) :
    ∀ {s : Coop E} {prev : Int} {pc : Pc}, Yielding p iters n s prev pc q →
      ∃ t, Returning p n ((coopStep iters p)^[t] (coopYield p s pc))
          (if q = [] ∧ prev = -1 then 0 else 1)
        ∧ ticks ((coopStep iters p)^[t] (coopYield p s pc)).log
          = ticks s.log ++ (turns q).map (fun i : Nat => (i : Int))
        ∧ dones ((coopStep iters p)^[t] (coopYield p s pc)).log
          = dones s.log ++ (leavers q).map (fun i : Nat => (i : Int)) := by
  induction q using served.induct with
  | case1 =>
      intro s prev pc h
      obtain ⟨hret, hticks, hdones⟩ := yield_returns h
      refine ⟨0, ?_, ?_, ?_⟩
      · simpa using hret
      · show ticks (coopYield p s pc).log = _
        rw [hticks]
        simp [turns, served_nil]
      · show dones (coopYield p s pc).log = _
        rw [hdones]
        simp [leavers, served_nil]
  | case2 i q ih =>
      intro s prev pc h
      obtain ⟨hserving, hticks, hdones⟩ := yield_serves h
      obtain ⟨t₀, ht₀, -, hloop⟩ := serving_loop hserving
      obtain ⟨hstep, hyield⟩ := serving_exit hloop rfl
      obtain ⟨t, hret, hticks', hdones'⟩ := ih hyield
      refine ⟨t + 1 + t₀, ?_⟩
      rw [Function.iterate_add_apply, ht₀, Function.iterate_succ_apply, hstep]
      refine ⟨?_, ?_, ?_⟩
      · rw [if_neg (by omega)] at hret
        rw [if_neg (by simp)]
        exact hret
      · rw [hticks', turns_leave, ← hticks]
        rfl
      · rw [hdones', leavers_leave, ← hdones, List.map_cons]
        show dones (.done i :: (coopYield p s pc).log) ++ _ = _
        rw [dones_done, List.append_assoc]
        rfl
  | case3 i m q ih =>
      intro s prev pc h
      obtain ⟨hserving, hticks, hdones⟩ := yield_serves h
      obtain ⟨t₀, ht₀, hle, hloop⟩ := serving_loop hserving
      obtain ⟨hstep, hyield⟩ := serving_turn hloop rfl hle
      obtain ⟨t, hret, hticks', hdones'⟩ := ih hyield
      refine ⟨t + 1 + t₀, ?_⟩
      rw [Function.iterate_add_apply, ht₀, Function.iterate_succ_apply, hstep]
      refine ⟨?_, ?_, ?_⟩
      · rw [if_neg (by omega)] at hret
        rw [if_neg (by simp)]
        exact hret
      · rw [hticks', turns_turn, ← hticks, List.map_cons]
        show ticks (.tick i :: (coopYield p s pc).log) ++ _ = _
        rw [ticks_tick, List.append_assoc]
        rfl
      · rw [hdones', leavers_turn, ← hdones]
        rfl

end Run

-- ============================================================== the start

section Start

/-- The scheduler after `k` calls of `sched_add`. -/
structure Filled (t : SchedT) (cap k : Nat) : Prop where
  inv : RunningInv t
  cap_eq : t.cap = cap
  current : t.current = -1
  cursor : t.cursor = 0
  ready : ∀ j < k, (t.task j).state = .ready ∧ (t.task j).id = j
  unused : ∀ j, k ≤ j → j < cap → (t.task j).state = .unused

theorem filled_init (cap : Nat) : Filled (schedInit cap) cap 0 := by
  refine ⟨runningInv_init cap, cap_schedInit cap, rfl, rfl, fun j hj => ?_,
    fun j _ _ => ?_⟩
  · exact absurd hj (Nat.not_lt_zero j)
  · rw [task_schedInit]
    rfl

/-- The next task takes the next slot. -/
theorem filled_add {t : SchedT} {cap k : Nat} (h : Filled t cap k)
    (hk : k < cap) : Filled (schedAdd t k 1).1 cap (k + 1) := by
  have hslot : t.tasks.findIdx? (fun t => t.state = .unused) = some k := by
    refine (Table.findIdx_eq_some_iff (d := emptySlot)).mpr ⟨?_, ?_, ?_⟩
    · show k < t.cap
      rw [h.cap_eq]
      exact hk
    · exact decide_eq_true (h.unused k (Nat.le_refl k) hk)
    · intro j hj
      have hready := (h.ready j hj).1
      show decide ((t.task j).state = .unused) = false
      rw [hready]
      rfl
  have hadd : (schedAdd t k 1).1
      = t.setTask k { id := k, state := .ready, quantum := 1, reload := 1,
                      ran := 0 } := by
    unfold schedAdd
    rw [hslot]
    rfl
  have hcap : k < t.cap := by
    rw [h.cap_eq]
    exact hk
  refine ⟨runningInv_add h.inv k 1, ?_, ?_, ?_, fun j hj => ?_,
    fun j hj hjcap => ?_⟩
  · rw [hadd, SchedT.cap_setTask, h.cap_eq]
  · rw [hadd]
    exact h.current
  · rw [hadd]
    exact h.cursor
  · rw [hadd]
    by_cases hjk : j = k
    · rw [hjk, SchedT.task_setTask_self hcap]
      exact ⟨rfl, rfl⟩
    · rw [SchedT.task_setTask_ne hjk]
      exact h.ready j (by omega)
  · rw [hadd, SchedT.task_setTask_ne (by omega)]
    exact h.unused j (by omega) hjcap

/-- All tasks wait, in the order of their indices. -/
theorem filled_queue {t : SchedT} {cap n : Nat} (h : Filled t cap n)
    (hn : n ≤ cap) : readyQueue t = List.range n := by
  obtain ⟨d, rfl⟩ := Nat.exists_eq_add_of_le hn
  unfold readyQueue Cyclic.order
  rw [h.cap_eq, h.cursor, List.rotate_zero, List.range_add,
    List.filter_append, List.filter_eq_self.mpr, List.filter_eq_nil_iff.mpr,
    List.append_nil]
  · intro j hj
    obtain ⟨i, hi, rfl⟩ := List.mem_map.mp hj
    have hi := List.mem_range.mp hi
    rw [h.unused (n + i) (by omega) (by omega)]
    decide
  · intro j hj
    exact decide_eq_true (h.ready j (List.mem_range.mp hj)).1

/-- The tasks as jobs. -/
def jobs (iters : Nat → Nat) (n : Nat) : List (Nat × Nat) :=
  (List.range n).map fun i => (i, iters i)

theorem jobs_names (iters : Nat → Nat) (n : Nat) :
    (jobs iters n).map (·.1) = List.range n := by
  unfold jobs
  rw [List.map_map]
  exact List.map_id _

/-- The loop of `coop_run_demo`: every task has its slot, and its entry
point under the top of its stack. -/
theorem coopInit_filled (p : StackPtrs E) {cap n : Nat} (hn : n ≤ cap)
    (ctask : Nat → E) (cmain : E) (frames : E → Option Pc) :
    let s := coopInit p cap n ctask cmain frames
    Filled s.csched cap n ∧ s.pc = .start ∧ s.log = [] ∧ s.current = -1
      ∧ ∀ j < n, s.ctask j = p.top j ∧ s.frames (p.top j) = some .entry := by
  refine Loop.upTo_inv (fun k (s : Coop E) => Filled s.csched cap k
    ∧ s.pc = .start ∧ s.log = [] ∧ s.current = -1
    ∧ ∀ j < k, s.ctask j = p.top j ∧ s.frames (p.top j) = some .entry)
    ⟨filled_init cap, rfl, rfl, rfl, fun j hj => absurd hj
      (Nat.not_lt_zero j)⟩ ?_
  rintro k hk t ⟨hfilled, hpc, hlog, hcur, htasks⟩
  refine ⟨filled_add hfilled (by omega), hpc, hlog, hcur, fun j hj => ?_⟩
  show Function.update t.ctask k (p.top k) j = p.top j
    ∧ Function.update t.frames (p.top k) (some .entry) (p.top j)
      = some .entry
  by_cases hjk : j = k
  · rw [hjk, Function.update_self, Function.update_self]
    exact ⟨rfl, rfl⟩
  · have htop : p.top j ≠ p.top k := by
      intro heq
      have howner := p.owner_top j
      rw [heq, p.owner_top] at howner
      omega
    rw [Function.update_of_ne hjk, Function.update_of_ne htop]
    exact htasks j (by omega)

/-- `coop_run_demo` calls `coop_yield` with every task in the queue. -/
theorem coopInit_yielding (p : StackPtrs E) (iters : Nat → Nat) {cap n : Nat}
    (hn : n ≤ cap) (ctask : Nat → E) (cmain : E) (frames : E → Option Pc) :
    let s := coopInit p cap n ctask cmain frames
    s.pc = .start ∧ s.log = []
      ∧ Yielding p iters n s (-1) .back (jobs iters n) := by
  intro s
  obtain ⟨hfilled, hpc, hlog, hcur, htasks⟩ :=
    coopInit_filled p hn ctask cmain frames
  refine ⟨hpc, hlog, hfilled.inv, ?_, ?_, hcur, fun x hx heq => ?_,
    fun x hx _ => ?_, Or.inl ⟨rfl, rfl⟩,
    coherent_start hlog (fun j hj => (htasks j hj).1) (jobs_names iters n)⟩
  · intro j hj hused
    by_cases hjn : j < n
    · exact (hfilled.ready j hjn).2
    · exact absurd (hfilled.unused j (by omega) (by
        rw [← hfilled.cap_eq]
        exact hj)) hused
  · rw [requeue_idle (by rw [hfilled.current]; decide),
      filled_queue hfilled hn, jobs_names]
  · omega
  · obtain ⟨i, hi, rfl⟩ := List.mem_map.mp hx
    obtain ⟨hesp, hframe⟩ := htasks i (List.mem_range.mp hi)
    refine ⟨.entry, ?_, Or.inl ⟨rfl, rfl⟩⟩
    rw [hesp]
    exact hframe

end Start

-- =============================================================== the claim

/-- Round by round, in index order, the tasks that are not finished. -/
def rounds (iters : Nat → Nat) (n : Nat) : List Nat :=
  (List.range ((Finset.range n).sup iters)).flatMap fun r =>
    (List.range n).filter fun i => r < iters i

/-- The turns of the jobs are the rounds. -/
theorem turns_jobs (iters : Nat → Nat) (n : Nat) :
    turns (jobs iters n) = rounds iters n := by
  have hround : ∀ r, roundOf (jobs iters n) r
      = (List.range n).filter fun i => r < iters i := by
    intro r
    unfold roundOf jobs
    rw [List.filter_map, List.map_map]
    exact List.map_id _
  have hbound : ∀ x ∈ jobs iters n, x.2 < (Finset.range n).sup iters + 1 := by
    intro x hx
    obtain ⟨i, hi, rfl⟩ := List.mem_map.mp hx
    have hi := Finset.mem_range.mpr (List.mem_range.mp hi)
    exact Nat.lt_succ_of_le (Finset.le_sup hi)
  have hlast : ((List.range n).filter fun i =>
      (Finset.range n).sup iters < iters i) = [] := by
    refine List.filter_eq_nil_iff.mpr fun i hi => ?_
    have hi := Finset.mem_range.mpr (List.mem_range.mp hi)
    have hle := Finset.le_sup (f := iters) hi
    simpa using hle
  have hrounds : roundOf (jobs iters n)
      = fun r => (List.range n).filter fun i => r < iters i := funext hround
  rw [turns_eq hbound, hrounds, List.range_succ, List.flatMap_append,
    List.flatMap_singleton, hlast, List.append_nil]
  rfl

/-- Every task is in as many rounds as it has turns. -/
theorem count_rounds (iters : Nat → Nat) {n i : Nat} (hi : i < n) :
    (rounds iters n).count i = iters i := by
  have hone : (List.range n).count i = 1 :=
    List.count_eq_one_of_mem List.nodup_range (List.mem_range.mpr hi)
  rw [← turns_jobs, count_turns]
  unfold jobs
  rw [List.filter_map, List.map_map]
  show (((List.range n).filter fun j => j = i).map iters).sum = iters i
  rw [List.filter_eq, hone]
  simp

/-- Any number of tasks that fits the table, any number of turns for each:
the run returns to main; every transfer of control is sound; the tasks take
their steps round by round, each as many as it has; each exits once; and
main goes on once, at the end. -/
theorem coop_run (p : StackPtrs E) (iters : Nat → Nat)
    {cap n : Nat} (hn : n ≤ cap) (ctask : Nat → E) (cmain : E)
    (frames : E → Option Pc) :
    ∃ t, let s := (coopStep iters p)^[t] (coopInit p cap n ctask cmain frames)
      s.pc = .returned
        ∧ Sound p n s.log
        ∧ ticks s.log = (rounds iters n).map (fun i : Nat => (i : Int))
        ∧ (∀ i < n, (ticks s.log).count (i : Int) = iters i)
        ∧ (dones s.log).Perm ((List.range n).map (fun i : Nat => (i : Int)))
        ∧ s.log.countP isToMain = (if n = 0 then 0 else 1)
        ∧ ∃ log, s.log = .back :: log ∧ .back ∉ log := by
  obtain ⟨hpc, hlog, hyield⟩ :=
    coopInit_yielding p iters hn ctask cmain frames
  generalize coopInit p cap n ctask cmain frames = s₀ at *
  obtain ⟨t, hret, hticks, hdones⟩ := yielding_run _ hyield
  have hstart : coopStep iters p s₀ = coopYield p s₀ .back := by
    unfold coopStep
    rw [hpc]
  have hno : ticks ([] : List (CoopEvent E)) = [] := rfl
  have hnone : dones ([] : List (CoopEvent E)) = [] := rfl
  rw [hlog, turns_jobs, hno, List.nil_append] at hticks
  rw [hlog, hnone, List.nil_append] at hdones
  have hjobs : jobs iters n = [] ↔ n = 0 := by
    unfold jobs
    rw [List.map_eq_nil_iff, List.range_eq_nil]
  refine ⟨1 + t + 1, ?_⟩
  rw [Function.iterate_succ_apply, hstart, Function.iterate_add_apply]
  generalize (coopStep iters p)^[t] (coopYield p s₀ .back) = s₁ at *
  have hback : coopStep iters p s₁ = { s₁.emit .back with pc := .returned } := by
    unfold coopStep
    rw [hret.pc]
  show _ ∧ _
  rw [Function.iterate_one, hback]
  refine ⟨rfl, ⟨⟨hret.exited, hret.quiet⟩, hret.sound⟩, hticks,
    fun i hi => ?_, ?_, ?_, s₁.log, rfl, hret.quiet⟩
  · show (ticks s₁.log).count (i : Int) = iters i
    rw [hticks]
    exact (List.count_map_of_injective _ (fun i : Nat => (i : Int))
      Nat.cast_injective i).trans (count_rounds iters hi)
  · show (dones s₁.log).Perm _
    rw [hdones, ← jobs_names iters n]
    exact (leavers_perm (jobs iters n)).map _
  · show (CoopEvent.back :: s₁.log).countP isToMain = _
    rw [List.countP_cons_of_neg (by simp [isToMain]), hret.toMain]
    simp only [hjobs, and_true]

/-- Stack pointers as pairs of the stack and an offset into it. -/
def pairPtrs : StackPtrs (Int × Nat) where
  saved c log := (c, log.length + 1)
  top i := (i, 0)
  owner e := e.1
  owner_saved _ _ := rfl
  owner_top _ := rfl

/-- `NCOOP` tasks in a table of one more, with `ITERS` turns each. -/
theorem coop_run_demo :
    ∃ t, let s := ((coopStep (fun _ => 3) pairPtrs)^[t]
        (coopInit pairPtrs 4 3 (fun _ => (0, 0)) (0, 0) fun _ => none))
      s.pc = .returned ∧ ticks s.log = [0, 1, 2, 0, 1, 2, 0, 1, 2] := by
  obtain ⟨t, hpc, -, hticks, -⟩ := coop_run pairPtrs (fun _ => 3)
    (n := 3) (by decide : 3 ≤ 4) (fun _ => (0, 0)) (0, 0) (fun _ => none)
  refine ⟨t, hpc, ?_⟩
  rw [hticks]
  rfl

end Thuos.Sched
