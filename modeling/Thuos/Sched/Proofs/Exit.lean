/-
Exited and blocked tasks. `SlotStep` lists everything one call can do to
one slot; the whole-run facts are case analyses over it.

# What exit is worth

`find_id` returns the first slot in use with the id, zombies included,
and `sched_block` writes BLOCKED over whatever state it finds. Two
things follow:

- blocking an exited task turns its ZOMBIE slot into a BLOCKED one,
  which `sched_unblock` makes READY: a dead task is picked again
  (`exit_undone`);
- once an id has been reused, `sched_block` and `sched_exit` reach the
  dead owner's slot and miss the live task (`block_misses_live`).

Both go through a call whose search hits a zombie. Runs without such a
call (`SparesZombies`, `HitsLive`) keep every zombie a zombie
(`zombie_step`), which is all the positive theorems need.
-/
import Thuos.Sched.Proofs.Running

namespace Thuos.Sched

open Machine

-- ===================================================== one slot, one call

/-- Everything a call can do to slot `i`: `t` before, `t'` after. -/
inductive SlotStep (s : SchedT) (op : Op) (i : Nat) (t t' : SchedTask) : Prop
  | kept (hid : t'.id = t.id) (hst : t'.state = t.state)
  | added (id : Int) (quantum : Nat) (hop : op = .add id quantum)
      (hold : t.state = .unused) (hid : t'.id = id) (hst : t'.state = .ready)
  | picked (hid : t'.id = t.id) (hop : op = .pickNext) (hold : Runnable t)
      (hst : Runnable t')
  | blocked (hid : t'.id = t.id) (hop : op = .block t.id)
      (hfind : findId s t.id = some i) (hst : t'.state = .blocked)
  | readied (hid : t'.id = t.id) (hop : op = .unblock t.id)
      (hold : t.state = .blocked) (hst : t'.state = .ready)
  | exited (hid : t'.id = t.id) (hop : op = .exit t.id)
      (hfind : findId s t.id = some i) (hst : t'.state = .zombie)

/-- `retire` at one slot: the slot found changes state, any other is
kept. -/
theorem task_retire (s : SchedT) (id : Int) (st : TaskState) {i : Nat}
    (hi : i < s.cap) :
    (findId s id = some i ∧ (s.task i).id = id
        ∧ (retire s id st).task i = { s.task i with state := st })
      ∨ (findId s id ≠ some i ∧ (retire s id st).task i = s.task i) := by
  cases hf : findId s id with
  | none =>
      rw [retire_none st hf]
      exact Or.inr ⟨Option.some_ne_none i ∘ Eq.symm, rfl⟩
  | some k =>
      rw [retire_spec st hf]
      show _ ∨ (_ ∧ (s.setState k st).task i = s.task i)
      by_cases hik : i = k
      · subst hik
        refine Or.inl ⟨rfl, (findId_eq_some_iff.mp hf).2.1.2, ?_⟩
        exact SchedT.task_setTask_self hi _
      · refine Or.inr ⟨fun h => hik (Option.some.inj h).symm, ?_⟩
        exact SchedT.task_setTask_ne hik _

theorem slot_step {s : SchedT} (h : RunningInv s) (op : Op) {i : Nat}
    (hi : i < s.cap) : SlotStep s op i (s.task i) ((step s op).task i) := by
  cases op with
  | add id quantum =>
      show SlotStep s _ i _ ((schedAdd s id quantum).1.task i)
      rcases schedAdd_spec s id quantum with ⟨k, hk, hu, q, -, hadd⟩ | hadd
      · rw [hadd]
        by_cases hik : i = k
        · subst hik
          rw [SchedT.task_setTask_self hk]
          exact .added id quantum rfl hu rfl rfl
        · rw [SchedT.task_setTask_ne hik]
          exact .kept rfl rfl
      · rw [hadd]
        exact .kept rfl rfl
  | pickNext =>
      show SlotStep s _ i _ ((schedPickNext s).1.task i)
      rcases schedPickNext_spec h with
        ⟨k, -, hrun, -, -, -, -, -, htask⟩ | ⟨hidle, hpick⟩
      · rw [htask i hi]
        unfold afterPick
        split
        · next hik =>
          subst hik
          exact .picked rfl rfl hrun (Or.inr rfl)
        · split
          · next hr => exact .picked rfl rfl (Or.inr hr) (Or.inl rfl)
          · exact .kept rfl rfl
      · rw [hpick]
        show SlotStep s _ i _ ((requeue s).task i)
        rw [task_requeue h hi, if_neg fun hr => hidle i hi (Or.inr hr)]
        exact .kept rfl rfl
  | onTick =>
      show SlotStep s _ i _ ((schedOnTick s).1.task i)
      rcases schedOnTick_spec s with ⟨-, -, htick⟩ | htick
      · rw [htick]
        by_cases hik : i = s.current.toNat
        · rw [← hik, SchedT.task_setTask_self hi]
          exact .kept rfl rfl
        · rw [SchedT.task_setTask_ne hik]
          exact .kept rfl rfl
      · rw [htick]
        exact .kept rfl rfl
  | block id =>
      show SlotStep s _ i _ ((retire s id .blocked).task i)
      rcases task_retire s id .blocked hi with ⟨hf, hid, ht⟩ | ⟨-, ht⟩
      · rw [ht]
        exact .blocked rfl (by rw [hid]) (by rw [hid]; exact hf) rfl
      · rw [ht]
        exact .kept rfl rfl
  | unblock id =>
      show SlotStep s _ i _ ((schedUnblock s id).task i)
      rcases schedUnblock_spec s id with ⟨k, hf, hb, hun⟩ | hun
      · rw [hun, SchedT.setState]
        by_cases hik : i = k
        · subst hik
          have hid := (findId_eq_some_iff.mp hf).2.1.2
          rw [SchedT.task_setTask_self hi]
          exact .readied rfl (by rw [hid]) hb rfl
        · rw [SchedT.task_setTask_ne hik]
          exact .kept rfl rfl
      · rw [hun]
        exact .kept rfl rfl
  | exit id =>
      show SlotStep s _ i _ ((retire s id .zombie).task i)
      rcases task_retire s id .zombie hi with ⟨hf, hid, ht⟩ | ⟨-, ht⟩
      · rw [ht]
        exact .exited rfl (by rw [hid]) (by rw [hid]; exact hf) rfl
      · rw [ht]
        exact .kept rfl rfl

/-- A slot in use keeps its id and stays in use. -/
theorem used_step {s : SchedT} (h : RunningInv s) (op : Op) {i : Nat}
    (hi : i < s.cap) (hu : (s.task i).state ≠ .unused) :
    ((step s op).task i).id = (s.task i).id
      ∧ ((step s op).task i).state ≠ .unused := by
  cases slot_step h op hi with
  | kept hid hst => exact ⟨hid, by rw [hst]; exact hu⟩
  | added id quantum hop hold => exact absurd hold hu
  | picked hid hop hold hst =>
      refine ⟨hid, ?_⟩
      rcases hst with hst | hst <;> rw [hst] <;> decide
  | blocked hid hop hfind hst => exact ⟨hid, by rw [hst]; decide⟩
  | readied hid hop hold hst => exact ⟨hid, by rw [hst]; decide⟩
  | exited hid hop hfind hst => exact ⟨hid, by rw [hst]; decide⟩

/-- A runnable task is neither unused, nor stopped. -/
theorem Runnable.state_ne {t : SchedTask} (h : Runnable t) :
    t.state ≠ .unused ∧ t.state ≠ .blocked ∧ t.state ≠ .zombie := by
  rcases h with h | h <;> rw [h] <;> decide

/-- A pick takes a slot that was runnable before the call. -/
theorem runnable_of_picked {s : SchedT} (h : RunningInv s) {i : Nat}
    (hcur : (schedPickNext s).1.current = i) :
    i < s.cap ∧ Runnable (s.task i) ∧ (schedPickNext s).2 = (s.task i).id := by
  rcases schedPickNext_spec h with ⟨k, hk, hr, -, hret, hk', -⟩ | ⟨-, hpick⟩
  · have hki : k = i := by omega
    subst hki
    exact ⟨hk, hr, hret⟩
  · rw [hpick] at hcur
    exact absurd hcur (by show (-1 : Int) ≠ i; omega)

theorem schedRunnable_pos_iff {s : SchedT} :
    0 < schedRunnable s ↔ ∃ i < s.cap, Runnable (s.task i) := by
  unfold schedRunnable
  rw [List.countP_pos_iff]
  refine ⟨fun h => ?_, fun h => ?_⟩
  · obtain ⟨t, ht, hr⟩ := h
    obtain ⟨i, hi, rfl⟩ := Table.mem_iff_slot (d := emptySlot).mp ht
    exact ⟨i, hi, of_decide_eq_true hr⟩
  · obtain ⟨i, hi, hr⟩ := h
    exact ⟨s.task i, Table.mem_iff_slot.mpr ⟨i, hi, rfl⟩,
      decide_eq_true hr⟩

-- ====================================================== zombies stay put

/-- The search for `id` ends at the slot of an exited task. -/
def hitsZombie (s : SchedT) (id : Int) : Bool :=
  match findId s id with
  | some i => (s.task i).state = .zombie
  | none => false

/-- The call is not a `sched_block` whose search ends at an exited
task. -/
def sparesZombies (s : SchedT) : Op → Bool
  | .block id => !hitsZombie s id
  | _ => true

/-- A zombie stays a zombie across every call that spares zombies. -/
theorem zombie_step {s : SchedT} (h : RunningInv s) {op : Op}
    (hspare : sparesZombies s op = true) {i : Nat} (hi : i < s.cap)
    (hz : (s.task i).state = .zombie) :
    ((step s op).task i).state = .zombie
      ∧ ((step s op).task i).id = (s.task i).id := by
  cases slot_step h op hi with
  | kept hid hst => exact ⟨by rw [hst]; exact hz, hid⟩
  | added id quantum hop hold =>
      rw [hz] at hold
      exact absurd hold (by decide)
  | picked hid hop hold hst => exact absurd hz hold.state_ne.2.2
  | blocked hid hop hfind hst =>
      rw [hop] at hspare
      simp [sparesZombies, hitsZombie, hfind, hz] at hspare
  | readied hid hop hold hst =>
      rw [hz] at hold
      exact absurd hold (by decide)
  | exited hid hop hfind hst => exact ⟨hst, hid⟩

theorem zombie_exec {ops : List Op} {s : SchedT} (h : RunningInv s)
    (hspare : Along step (fun s op => sparesZombies s op = true) s ops)
    {i : Nat} (hi : i < s.cap) (hz : (s.task i).state = .zombie) :
    ((exec step s ops).task i).state = .zombie
      ∧ ((exec step s ops).task i).id = (s.task i).id := by
  induction ops generalizing s with
  | nil => exact ⟨hz, rfl⟩
  | cons op ops ih =>
      obtain ⟨hz', hid'⟩ := zombie_step h hspare.1 hi hz
      have hi' : i < (step s op).cap := by
        rw [cap_step h op]
        exact hi
      obtain ⟨hfin, hid⟩ := ih (runningInv_step h op) hspare.2 hi' hz'
      exact ⟨hfin, hid.trans hid'⟩

-- =========================================================== unique ids

/-- The ids a run passes to `sched_add`, in order. -/
def addedIds (ops : List Op) : List Int :=
  ops.filterMap fun
    | .add id _ => some id
    | _ => none

/-- No id is used twice, and none of those in use is added again. -/
structure Fresh (s : SchedT) (ops : List Op) : Prop where
  nodup : (addedIds ops).Nodup
  distinct : ∀ i < s.cap, ∀ j < s.cap, (s.task i).state ≠ .unused →
    (s.task j).state ≠ .unused → (s.task i).id = (s.task j).id → i = j
  later : ∀ i < s.cap, (s.task i).state ≠ .unused →
    (s.task i).id ∉ addedIds ops

theorem fresh_init {cap : Nat} {ops : List Op} (h : (addedIds ops).Nodup) :
    Fresh (schedInit cap) ops where
  nodup := h
  distinct i _ _ _ hu := by
    rw [task_schedInit] at hu
    exact absurd rfl hu
  later i _ hu := by
    rw [task_schedInit] at hu
    exact absurd rfl hu

/-- A slot in use after a call was in use before it with the same id, or
took the id the call adds. -/
theorem used_origin {s : SchedT} (h : RunningInv s) (op : Op) {i : Nat}
    (hi : i < s.cap) (hu : ((step s op).task i).state ≠ .unused) :
    ((s.task i).state ≠ .unused
        ∧ ((step s op).task i).id = (s.task i).id)
      ∨ ((s.task i).state = .unused
        ∧ ∃ quantum, op = .add ((step s op).task i).id quantum) := by
  by_cases hold : (s.task i).state = .unused
  · cases slot_step h op hi with
    | kept hid hst => exact absurd (hst.trans hold) hu
    | added id quantum hop _ hid hst =>
        exact Or.inr ⟨hold, quantum, by rw [hid]; exact hop⟩
    | picked hid hop hr hst => exact absurd hold hr.state_ne.1
    | blocked hid hop hfind hst =>
        exact absurd hold (findId_eq_some_iff.mp hfind).2.1.1
    | readied hid hop hb hst =>
        rw [hold] at hb
        exact absurd hb (by decide)
    | exited hid hop hfind hst =>
        exact absurd hold (findId_eq_some_iff.mp hfind).2.1.1
  · exact Or.inl ⟨hold, (used_step h op hi hold).1⟩

/-- Only one slot is filled by one `sched_add`. -/
theorem added_unique {s : SchedT} {id : Int} {quantum i j : Nat}
    (hi : (s.task i).state = .unused) (hj : (s.task j).state = .unused)
    (hi' : ((schedAdd s id quantum).1.task i).state ≠ .unused)
    (hj' : ((schedAdd s id quantum).1.task j).state ≠ .unused) : i = j := by
  rcases schedAdd_spec s id quantum with ⟨k, hk, -, q, -, hadd⟩ | hadd
  · rw [hadd] at hi' hj'
    have hik : i = k := by
      by_contra hne
      rw [SchedT.task_setTask_ne hne] at hi'
      exact hi' hi
    have hjk : j = k := by
      by_contra hne
      rw [SchedT.task_setTask_ne hne] at hj'
      exact hj' hj
    exact hik.trans hjk.symm
  · rw [hadd] at hi'
    exact absurd hi hi'

theorem fresh_step {s : SchedT} (h : RunningInv s) {op : Op} {ops : List Op}
    (hf : Fresh s (op :: ops)) : Fresh (step s op) ops := by
  have hsub : ∀ id, id ∈ addedIds ops → id ∈ addedIds (op :: ops) := by
    intro id hid
    unfold addedIds at hid ⊢
    rw [List.filterMap_cons]
    split
    · exact hid
    · exact List.mem_cons_of_mem _ hid
  have hhead : ∀ id quantum, op = .add id quantum →
      id ∈ addedIds (op :: ops) ∧ id ∉ addedIds ops := by
    intro id quantum hop
    have hnodup := hf.nodup
    rw [hop] at hnodup ⊢
    exact ⟨List.mem_cons_self, (List.nodup_cons.mp hnodup).1⟩
  refine ⟨?_, fun i hi j hj hui huj hij => ?_, fun i hi hu hmem => ?_⟩
  · have hnodup := hf.nodup
    unfold addedIds at hnodup ⊢
    rw [List.filterMap_cons] at hnodup
    split at hnodup
    · exact hnodup
    · exact (List.nodup_cons.mp hnodup).2
  · rw [cap_step h op] at hi hj
    rcases used_origin h op hi hui with ⟨hoi, hidi⟩ | ⟨hoi, qi, hopi⟩
    · rcases used_origin h op hj huj with ⟨hoj, hidj⟩ | ⟨hoj, qj, hopj⟩
      · exact hf.distinct i hi j hj hoi hoj (by rw [← hidi, hij, hidj])
      · have := hf.later i hi hoi
        rw [← hidi, hij] at this
        exact absurd (hhead _ _ hopj).1 this
    · rcases used_origin h op hj huj with ⟨hoj, hidj⟩ | ⟨hoj, qj, hopj⟩
      · have := hf.later j hj hoj
        rw [← hidj, ← hij] at this
        exact absurd (hhead _ _ hopi).1 this
      · rw [hopi] at hui huj
        exact added_unique hoi hoj hui huj
  · rw [cap_step h op] at hi
    rcases used_origin h op hi hu with ⟨ho, hid⟩ | ⟨ho, q, hop⟩
    · rw [hid] at hmem
      exact hf.later i hi ho (hsub _ hmem)
    · exact (hhead _ _ hop).2 hmem

theorem fresh_exec {ops rest : List Op} {s : SchedT} (h : RunningInv s)
    (hf : Fresh s (ops ++ rest)) : Fresh (exec step s ops) rest := by
  induction ops generalizing s with
  | nil => exact hf
  | cons op ops ih => exact ih (runningInv_step h op) (fresh_step h hf)

-- ======================================================== exit is final

/-- Exiting the owner of an id that is in use only once leaves its slot
a zombie. -/
theorem exit_zombie {s : SchedT} {rest : List Op} (hf : Fresh s rest)
    {id : Int} {i : Nat} (hi : i < s.cap)
    (hu : (s.task i).state ≠ .unused) (hid : (s.task i).id = id) :
    ((schedExit s id).task i).state = .zombie
      ∧ ((schedExit s id).task i).id = id := by
  obtain ⟨k, hk⟩ := findId_isSome hi hu
  rw [hid] at hk
  obtain ⟨hkcap, ⟨hku, hkid⟩, -⟩ := findId_eq_some_iff.mp hk
  have hki : k = i := hf.distinct k hkcap i hi hku hu (by rw [hkid, hid])
  subst hki
  rcases task_retire s id .zombie hi with ⟨-, -, ht⟩ | ⟨hne, -⟩
  · show ((retire s id .zombie).task k).state = _ ∧ _
    rw [show schedExit s id = retire s id .zombie from rfl, ht]
    exact ⟨rfl, hid⟩
  · exact absurd hk hne

/-- Exit is final in every run that never calls `sched_block` on an
exited task: after `sched_exit id` on an existing task no slot carrying
`id` is READY or RUNNING, and `sched_pick_next` does not return `id`
(for the id -1, which is also the idle result, as long as something is
runnable). -/
theorem exit_is_final (cap : Nat) (pre post : List Op) (id : Int)
    (hadds : (addedIds (pre ++ Op.exit id :: post)).Nodup)
    (hex : ∃ i < cap,
      ((exec step (schedInit cap) pre).task i).state ≠ .unused
        ∧ ((exec step (schedInit cap) pre).task i).id = id)
    (hspare : Along step (fun s op => sparesZombies s op = true)
      (schedInit cap) (pre ++ Op.exit id :: post)) :
    (∀ i < cap,
        ((exec step (schedInit cap) (pre ++ Op.exit id :: post)).task i).id = id
        → ¬Runnable
            ((exec step (schedInit cap) (pre ++ Op.exit id :: post)).task i))
      ∧ ((id = -1 → 0 < schedRunnable
            (exec step (schedInit cap) (pre ++ Op.exit id :: post))) →
          (schedPickNext
            (exec step (schedInit cap) (pre ++ Op.exit id :: post))).2 ≠ id) := by
  have hpre := runningInv_reachable cap pre
  have hcap := cap_exec (runningInv_init cap) pre
  have hall := runningInv_reachable cap (pre ++ Op.exit id :: post)
  have hcap' := cap_exec (runningInv_init cap) (pre ++ Op.exit id :: post)
  rw [cap_schedInit] at hcap hcap'
  have hfresh := fresh_exec (runningInv_init cap) (fresh_init hadds)
  have hfresh' : Fresh
      (exec step (schedInit cap) (pre ++ Op.exit id :: post)) [] := by
    have hwhole : Fresh (schedInit cap) ((pre ++ Op.exit id :: post) ++ []) := by
      rw [List.append_nil]
      exact fresh_init hadds
    exact fresh_exec (runningInv_init cap) hwhole
  obtain ⟨i, hi, hu, hid⟩ := hex
  obtain ⟨hz, hzid⟩ := exit_zombie hfresh (by rw [hcap]; exact hi) hu hid
  -- the zombie survives the rest of the run, and owns the id alone
  have hdead : ((exec step (schedInit cap) (pre ++ Op.exit id :: post)).task
        i).state = .zombie
      ∧ ((exec step (schedInit cap) (pre ++ Op.exit id :: post)).task i).id
        = id := by
    rw [exec_append, exec_cons]
    have hkeep := (along_append.mp hspare).2.2
    have hexit := runningInv_step hpre (.exit id)
    obtain ⟨h1, h2⟩ := zombie_exec hexit hkeep
      (by rw [cap_step hpre, hcap]; exact hi) hz
    exact ⟨h1, h2.trans hzid⟩
  generalize exec step (schedInit cap) (pre ++ Op.exit id :: post) = s
    at hall hcap' hfresh' hdead ⊢
  have hnone : ∀ j < cap, (s.task j).id = id → ¬Runnable (s.task j) := by
    intro j hj hjid hrun
    obtain ⟨hju, -, hjz⟩ := hrun.state_ne
    have hji : j = i := hfresh'.distinct j (by omega) i (by omega) hju
      (by rw [hdead.1]; decide) (by rw [hjid, hdead.2])
    subst hji
    exact hjz hdead.1
  refine ⟨hnone, fun hidle hret => ?_⟩
  rcases schedPickNext_spec hall with ⟨k, hk, hrun, -, hkid, -⟩ | ⟨hno, hpick⟩
  · exact hnone k (by omega) (by rw [← hkid, hret]) hrun
  · rw [hpick] at hret
    obtain ⟨j, hj, hrun⟩ := schedRunnable_pos_iff.mp (hidle hret.symm)
    exact hno j hj hrun

/-- Two tasks, the first exits, and the second is blocked and unblocked:
the exited id is never returned. -/
theorem exit_is_final_two :
    (schedPickNext (exec step (schedInit 2)
        [.add 1 2, .add 2 2, .pickNext, .exit 1, .block 2, .unblock 2])).2
      ≠ 1 :=
  (exit_is_final 2 [.add 1 2, .add 2 2, .pickNext] [.block 2, .unblock 2] 1
    (by decide) (by decide +kernel) (by decide +kernel)).2
    (by decide +kernel)

/-- Exit undone: `sched_block` and `sched_unblock` bring an exited task
back, and `sched_pick_next` returns its id. -/
theorem exit_undone :
    (addedIds ([.add 7 1] ++ Op.exit 7 :: [.block 7, .unblock 7])).Nodup
      ∧ ((exec step (schedInit 1) [.add 7 1]).task 0).state ≠ .unused
      ∧ ((exec step (schedInit 1) [.add 7 1]).task 0).id = 7
      ∧ schedRunnable (exec step (schedInit 1)
          ([.add 7 1] ++ Op.exit 7 :: [.block 7, .unblock 7])) = 1
      ∧ (schedPickNext (exec step (schedInit 1)
          ([.add 7 1] ++ Op.exit 7 :: [.block 7, .unblock 7]))).2 = 7 := by
  decide +kernel

-- ============================================ calls reach the live task

/-- A task that has been added and has not exited. -/
def Live (t : SchedTask) : Prop :=
  t.state = .ready ∨ t.state = .running ∨ t.state = .blocked

instance (t : SchedTask) : Decidable (Live t) :=
  inferInstanceAs (Decidable (_ ∨ _ ∨ _))

/-- The ids of the live tasks are pairwise distinct. -/
def DistinctLive (s : SchedT) : Prop :=
  ∀ i < s.cap, ∀ j < s.cap, Live (s.task i) → Live (s.task j) →
    (s.task i).id = (s.task j).id → i = j

instance (s : SchedT) : Decidable (DistinctLive s) :=
  inferInstanceAs (Decidable (∀ i < s.cap, ∀ j < s.cap, _))

/-- The search of a `sched_block`, or of a `sched_exit` whose id has a
live owner, does not end at an exited task. -/
def hitsLive (s : SchedT) : Op → Bool
  | .block id => !hitsZombie s id
  | .exit id => !hitsZombie s id || !s.tasks.any fun t => Live t && t.id = id
  | _ => true

theorem sparesZombies_of_hitsLive {s : SchedT} {op : Op}
    (h : hitsLive s op = true) : sparesZombies s op = true := by
  cases op with
  | block id => exact h
  | _ => rfl

/-- A search that does not end at an exited task finds the live owner. -/
theorem findId_live {s : SchedT} {id : Int} {i : Nat} (hi : i < s.cap)
    (hlive : Live (s.task i)) (hid : (s.task i).id = id)
    (hdist : DistinctLive s) (hz : hitsZombie s id = false) :
    findId s id = some i := by
  have hu : (s.task i).state ≠ .unused := by
    rcases hlive with h | h | h <;> rw [h] <;> decide
  obtain ⟨k, hk⟩ := findId_isSome hi hu
  rw [hid] at hk
  obtain ⟨hkcap, ⟨hku, hkid⟩, -⟩ := findId_eq_some_iff.mp hk
  have hknz : (s.task k).state ≠ .zombie := by
    simpa [hitsZombie, hk] using hz
  have hklive : Live (s.task k) := by
    unfold Live
    cases hst : (s.task k).state with
    | unused => exact absurd hst hku
    | zombie => exact absurd hst hknz
    | ready => exact Or.inl rfl
    | running => exact Or.inr (Or.inl rfl)
    | blocked => exact Or.inr (Or.inr rfl)
  rw [hk, hdist k hkcap i hi hklive hlive (by rw [hkid, hid])]

/-- When the search finds slot `i`, `retire` writes that slot's state and
no other. -/
theorem retire_only {s : SchedT} {id : Int} {i : Nat} (st : TaskState)
    (hf : findId s id = some i) :
    ((retire s id st).task i).state = st
      ∧ ∀ j < s.cap, j ≠ i →
          ((retire s id st).task j).state = (s.task j).state := by
  have hi := (findId_eq_some_iff.mp hf).1
  refine ⟨?_, fun j hj hne => ?_⟩
  · rcases task_retire s id st hi with ⟨-, -, ht⟩ | ⟨hne, -⟩
    · rw [ht]
    · exact absurd hf hne
  · rcases task_retire s id st hj with ⟨hfj, -⟩ | ⟨-, ht⟩
    · rw [hf, Option.some.injEq] at hfj
      exact absurd hfj.symm hne
    · rw [ht]

/-- A slot that is BLOCKED or ZOMBIE stays so until its id is
unblocked. -/
theorem stopped_exec {ops : List Op} {s : SchedT} (h : RunningInv s) {i : Nat}
    (hi : i < s.cap)
    (hst : (s.task i).state = .blocked ∨ (s.task i).state = .zombie)
    (hno : .unblock (s.task i).id ∉ ops) :
    ((exec step s ops).task i).state = .blocked
      ∨ ((exec step s ops).task i).state = .zombie := by
  induction ops generalizing s with
  | nil => exact hst
  | cons op ops ih =>
      have hu : (s.task i).state ≠ .unused := by
        rcases hst with hst | hst <;> rw [hst] <;> decide
      have hid := (used_step h op hi hu).1
      refine ih (runningInv_step h op) (by rw [cap_step h op]; exact hi) ?_ ?_
      · cases slot_step h op hi with
        | kept _ hst' => rw [hst']; exact hst
        | added _ _ _ hold => exact absurd hold hu
        | picked _ _ hold =>
            obtain ⟨-, hnb, hnz⟩ := hold.state_ne
            exact absurd hst (not_or.mpr ⟨hnb, hnz⟩)
        | blocked _ _ _ hst' => exact Or.inl hst'
        | readied _ hop =>
            exact absurd (by rw [← hop]; exact List.mem_cons_self) hno
        | exited _ _ _ hst' => exact Or.inr hst'
      · rw [hid]
        exact fun hmem => hno (List.mem_cons_of_mem _ hmem)

/-- A slot blocked under its own id is not picked before that id is
unblocked. -/
theorem not_picked_of_blocked {s : SchedT} (h : RunningInv s) {id : Int}
    {i : Nat} (hf : findId s id = some i) {post : List Op}
    (hno : .unblock id ∉ post) :
    (schedPickNext (exec step (step s (.block id)) post)).1.current ≠ i := by
  intro hcur
  have hi := (findId_eq_some_iff.mp hf).1
  have hb := runningInv_step h (.block id)
  have hib : i < (step s (.block id)).cap := by
    rw [cap_step h]
    exact hi
  have hid : ((step s (.block id)).task i).id = id := by
    rcases task_retire s id .blocked hi with ⟨-, hid, ht⟩ | ⟨hne, -⟩
    · show ((retire s id .blocked).task i).id = id
      rw [ht]
      exact hid
    · exact absurd hf hne
  have hnever : .unblock ((step s (.block id)).task i).id ∉ post := by
    rw [hid]
    exact hno
  have hst := (retire_only .blocked hf).1
  have hstop := stopped_exec hb hib (Or.inl hst) hnever
  obtain ⟨-, hrun, -⟩ := runnable_of_picked (runningInv_exec hb post) hcur
  obtain ⟨-, hnb, hnz⟩ := hrun.state_ne
  exact not_or.mpr ⟨hnb, hnz⟩ hstop

/-- A slot exited under its own id is never picked again, as long as no
`sched_block` finds an exited task. -/
theorem not_picked_of_exited {s : SchedT} (h : RunningInv s) {id : Int}
    {i : Nat} (hf : findId s id = some i) {post : List Op}
    (hspare : Along step (fun s op => sparesZombies s op = true)
      (step s (.exit id)) post) :
    (schedPickNext (exec step (step s (.exit id)) post)).1.current ≠ i := by
  intro hcur
  have he := runningInv_step h (.exit id)
  have hie : i < (step s (.exit id)).cap := by
    rw [cap_step h]
    exact (findId_eq_some_iff.mp hf).1
  have hst := (retire_only .zombie hf).1
  obtain ⟨hz, -⟩ := zombie_exec he hspare hie hst
  obtain ⟨-, hrun, -⟩ := runnable_of_picked (runningInv_exec he post) hcur
  exact hrun.state_ne.2.2 hz

/-- `sched_block` and `sched_exit` reach the live owner of the id in
every run whose searches do not end at an exited task: that slot alone
changes state, it is not picked again before `sched_unblock` of its id,
and after an exit it is never picked again. -/
theorem block_exit_reach_live (cap : Nat) (pre post : List Op) (id : Int)
    (i : Nat) (hi : i < cap)
    (hlive : Live ((exec step (schedInit cap) pre).task i))
    (hid : ((exec step (schedInit cap) pre).task i).id = id)
    (hdist : DistinctLive (exec step (schedInit cap) pre)) :
    (Along step (fun s op => hitsLive s op = true) (schedInit cap)
        (pre ++ Op.block id :: post) →
      ((exec step (schedInit cap) (pre ++ [Op.block id])).task i).state
          = .blocked
        ∧ (∀ j < cap, j ≠ i →
            ((exec step (schedInit cap) (pre ++ [Op.block id])).task j).state
              = ((exec step (schedInit cap) pre).task j).state)
        ∧ (.unblock id ∉ post →
            (schedPickNext (exec step (schedInit cap)
              (pre ++ Op.block id :: post))).1.current ≠ i))
    ∧ (Along step (fun s op => hitsLive s op = true) (schedInit cap)
        (pre ++ Op.exit id :: post) →
      ((exec step (schedInit cap) (pre ++ [Op.exit id])).task i).state
          = .zombie
        ∧ (∀ j < cap, j ≠ i →
            ((exec step (schedInit cap) (pre ++ [Op.exit id])).task j).state
              = ((exec step (schedInit cap) pre).task j).state)
        ∧ (schedPickNext (exec step (schedInit cap)
              (pre ++ Op.exit id :: post))).1.current ≠ i) := by
  have h := runningInv_reachable cap pre
  have hcap := cap_exec (runningInv_init cap) pre
  rw [cap_schedInit] at hcap
  simp only [exec_append, exec_cons, exec_nil, along_append, Along]
  generalize exec step (schedInit cap) pre = s at h hcap hlive hid hdist ⊢
  have hi' : i < s.cap := by omega
  refine ⟨fun hC => ?_, fun hC => ?_⟩
  · obtain ⟨-, hhit, -⟩ := hC
    have hz : hitsZombie s id = false := by simpa [hitsLive] using hhit
    have hf := findId_live hi' hlive hid hdist hz
    obtain ⟨hst, hothers⟩ := retire_only .blocked hf
    exact ⟨hst, fun j hj => hothers j (by omega), not_picked_of_blocked h hf⟩
  · obtain ⟨-, hhit, hpost⟩ := hC
    have hany : (s.tasks.any fun t => Live t && t.id = id) = true := by
      rw [List.any_eq_true]
      refine ⟨s.task i, Table.mem_iff_slot.mpr ⟨i, hi', rfl⟩, ?_⟩
      simp [hlive, hid]
    have hz : hitsZombie s id = false := by
      simpa [hitsLive, hany] using hhit
    have hf := findId_live hi' hlive hid hdist hz
    obtain ⟨hst, hothers⟩ := retire_only .zombie hf
    have hspare : Along step (fun s op => sparesZombies s op = true)
        (step s (.exit id)) post :=
      along_mono (fun _ _ => sparesZombies_of_hitsLive) hpost
    exact ⟨hst, fun j hj => hothers j (by omega),
      not_picked_of_exited h hf hspare⟩

/-- Two live tasks: blocking id 2 stops slot 1, and exiting it retires
slot 1 for good. -/
theorem block_exit_reach_live_two :
    (schedPickNext (exec step (schedInit 2)
        ([.add 1 1, .add 2 1] ++ Op.block 2 :: [.pickNext, .onTick]))).1.current
        ≠ (1 : Nat)
      ∧ (schedPickNext (exec step (schedInit 2)
        ([.add 1 1, .add 2 1] ++ Op.exit 2 :: [.unblock 2]))).1.current
        ≠ (1 : Nat) :=
  ⟨((block_exit_reach_live 2 [.add 1 1, .add 2 1] [.pickNext, .onTick] 2 1
      (by decide) (by decide +kernel) (by decide +kernel)
      (by decide +kernel)).1 (by decide +kernel)).2.2 (by decide),
    ((block_exit_reach_live 2 [.add 1 1, .add 2 1] [.unblock 2] 2 1
      (by decide) (by decide +kernel) (by decide +kernel)
      (by decide +kernel)).2 (by decide +kernel)).2.2⟩

/-- A reused id: the search of `sched_block 1` ends at the exited owner,
whose slot changes state, while the live owner in slot 1 keeps running.
The live ids are pairwise distinct throughout. -/
theorem block_misses_live :
    Along step (fun s _ => DistinctLive s) (schedInit 2)
        [.add 1 1, .exit 1, .add 1 1, .block 1]
      ∧ Live ((exec step (schedInit 2) [.add 1 1, .exit 1, .add 1 1]).task 1)
      ∧ ((exec step (schedInit 2) [.add 1 1, .exit 1, .add 1 1]).task 1).id
          = 1
      ∧ ((exec step (schedInit 2)
          [.add 1 1, .exit 1, .add 1 1, .block 1]).task 1).state = .ready
      ∧ ((exec step (schedInit 2)
          [.add 1 1, .exit 1, .add 1 1, .block 1]).task 0).state
        ≠ ((exec step (schedInit 2)
          [.add 1 1, .exit 1, .add 1 1]).task 0).state
      ∧ (schedPickNext (exec step (schedInit 2)
          [.add 1 1, .exit 1, .add 1 1, .block 1])).1.current = (1 : Nat) := by
  decide +kernel

end Thuos.Sched
