/-
Round-robin bounded waiting. The measure the source never writes down is
the cyclic gap from the cursor to the waiting slot: a pick either takes
the slot or moves the cursor strictly closer to it (`pick_advances`), and
the other five calls do not move the cursor at all (`cursor_step`).

So a slot that waits, READY at every pick until one takes it, is taken
within `cap` picks whatever else happens in between, and the slots picked
before it have strictly decreasing gaps to it: none of them is picked
twice.
-/
import Thuos.Sched.Proofs.Running

namespace Thuos.Sched

open Machine Cyclic

-- ========================================================== vocabulary

/-- The slots the `sched_pick_next` calls of a run select, in order
(`-1` for a call that goes idle). -/
def picks (s : SchedT) : List Op → List Int
  | [] => []
  | op :: ops =>
      if op = .pickNext then
        (step s op).current :: picks (step s op) ops
      else picks (step s op) ops

/-- Slot `t` is READY at every `sched_pick_next` call up to the one that
picks it; nothing is asked of it from then on. -/
def Waits (t : Nat) : SchedT → List Op → Prop
  | _, [] => True
  | s, op :: ops =>
      if op = .pickNext then
        (s.task t).state = .ready
          ∧ ((step s op).current ≠ t → Waits t (step s op) ops)
      else Waits t (step s op) ops

instance decidableWaits (t : Nat) : ∀ s ops, Decidable (Waits t s ops)
  | _, [] => inferInstanceAs (Decidable True)
  | s, op :: ops =>
      have := decidableWaits t (step s op) ops
      inferInstanceAs (Decidable (if op = .pickNext then
        (s.task t).state = .ready
          ∧ ((step s op).current ≠ t → Waits t (step s op) ops)
        else Waits t (step s op) ops))

-- ============================================================ one step

/-- Only a pick moves the cursor. -/
theorem cursor_step (s : SchedT) {op : Op} (hop : op ≠ .pickNext) :
    (step s op).cursor = s.cursor := by
  cases op with
  | add id quantum =>
      show (schedAdd s id quantum).1.cursor = s.cursor
      rcases schedAdd_spec s id quantum with ⟨i, -, -, q, -, hadd⟩ | hadd
      · rw [hadd, SchedT.cursor_setTask]
      · rw [hadd]
  | pickNext => exact absurd rfl hop
  | onTick =>
      show (schedOnTick s).1.cursor = s.cursor
      rcases schedOnTick_spec s with ⟨-, -, htick⟩ | htick
      · rw [htick, SchedT.cursor_setTask]
      · rw [htick]
  | block id => exact cursor_retire s id .blocked
  | unblock id =>
      show (schedUnblock s id).cursor = s.cursor
      rcases schedUnblock_spec s id with ⟨i, -, -, hun⟩ | hun
      · rw [hun, SchedT.setState, SchedT.cursor_setTask]
      · rw [hun]
  | exit id => exact cursor_retire s id .zombie

/-- A pick made while `t` is READY takes `t`, or takes another slot `k`
and leaves the cursor one step closer to `t` than `k` is. -/
theorem pick_advances {s : SchedT} (h : RunningInv s) {t : Nat}
    (ht : t < s.cap) (hready : (s.task t).state = .ready) :
    ∃ k < s.cap, (step s .pickNext).current = k
      ∧ (k ≠ t →
          gap s.cap (step s .pickNext).cursor t + 1 = gap s.cap k t
            ∧ gap s.cap k t ≤ gap s.cap s.cursor t) := by
  rcases schedPickNext_spec h with
    ⟨k, hk, -, hmin, -, hcur, hcursor, -⟩ | ⟨hidle, -⟩
  · refine ⟨k, hk, hcur, fun hne => ?_⟩
    have hc : s.cursor < s.cap := h.cursor_lt (by omega)
    have hle := hmin t ht (Or.inl hready)
    show gap s.cap (schedPickNext s).1.cursor t + 1 = _ ∧ _
    rw [hcursor]
    exact gap_after_scan hc hk ht hle hne
  · exact absurd (Or.inl hready) (hidle t ht)

/-- One call, seen from a slot that waits: no pick, which leaves the
cursor; a pick of the slot; or a pick of another one, which comes closer. -/
theorem waits_step {s : SchedT} (h : RunningInv s) {t : Nat}
    (ht : t < s.cap) {op : Op} {ops : List Op}
    (hwait : Waits t s (op :: ops)) :
    (picks s (op :: ops) = picks (step s op) ops
        ∧ (step s op).cursor = s.cursor ∧ Waits t (step s op) ops)
      ∨ picks s (op :: ops) = (t : Int) :: picks (step s op) ops
      ∨ ∃ k < s.cap, k ≠ t
        ∧ picks s (op :: ops) = (k : Int) :: picks (step s op) ops
        ∧ gap s.cap (step s op).cursor t + 1 = gap s.cap k t
        ∧ gap s.cap k t ≤ gap s.cap s.cursor t
        ∧ Waits t (step s op) ops := by
  rw [Waits] at hwait
  rw [picks]
  by_cases hop : op = .pickNext
  · rw [if_pos hop] at hwait ⊢
    subst hop
    obtain ⟨hready, hlater⟩ := hwait
    obtain ⟨k, hk, hcur, hadv⟩ := pick_advances h ht hready
    rw [hcur] at hlater ⊢
    by_cases hkt : k = t
    · rw [hkt]
      exact Or.inr (Or.inl rfl)
    · obtain ⟨hstep, hle⟩ := hadv hkt
      exact Or.inr (Or.inr
        ⟨k, hk, hkt, rfl, hstep, hle, hlater (by omega)⟩)
  · rw [if_neg hop] at hwait ⊢
    exact Or.inl ⟨rfl, cursor_step s hop, hwait⟩

-- ================================================================ runs

/-- The waiting bound: more picks than the gap reach the slot. -/
theorem mem_picks_of_gap_lt {t : Nat} :
    ∀ {ops : List Op} {s : SchedT}, RunningInv s → t < s.cap →
      Waits t s ops →
      ∀ n, gap s.cap s.cursor t < n → n ≤ (picks s ops).length →
        (t : Int) ∈ (picks s ops).take n := by
  intro ops
  induction ops with
  | nil =>
      intro s _ _ _ n hlt hn
      simp only [picks, List.length_nil] at hn
      omega
  | cons op ops ih =>
      intro s h ht hwait n hlt hn
      have h' := runningInv_step h op
      have hcap := cap_step h op
      have ih' := ih h' (by rw [hcap]; exact ht)
      rw [hcap] at ih'
      rcases waits_step h ht hwait with
        ⟨hpicks, hcursor, hlater⟩ | hpicks
          | ⟨k, -, -, hpicks, hstep, hle, hlater⟩
      · rw [hpicks] at hn ⊢
        rw [hcursor] at ih'
        exact ih' hlater n hlt hn
      · rw [hpicks]
        cases n with
        | zero => omega
        | succ n => exact List.mem_cons_self
      · rw [hpicks] at hn ⊢
        cases n with
        | zero => omega
        | succ n =>
            rw [List.take_succ_cons]
            refine List.mem_cons_of_mem _ (ih' hlater n (by omega) ?_)
            simpa using hn

/-- The slots picked before `t` are other slots, at most a gap away from
it, and no slot comes twice: their gaps to `t` strictly decrease. -/
theorem picks_before {t : Nat} :
    ∀ {ops : List Op} {s : SchedT}, RunningInv s → t < s.cap →
      Waits t s ops →
      ((picks s ops).takeWhile (· ≠ (t : Int))).Nodup
        ∧ ∀ x ∈ (picks s ops).takeWhile (· ≠ (t : Int)),
            ∃ k < s.cap, x = (k : Int)
              ∧ gap s.cap k t ≤ gap s.cap s.cursor t := by
  intro ops
  induction ops with
  | nil =>
      intro s _ _ _
      simp [picks]
  | cons op ops ih =>
      intro s h ht hwait
      have h' := runningInv_step h op
      have hcap := cap_step h op
      have ih' := ih h' (by rw [hcap]; exact ht)
      rw [hcap] at ih'
      rcases waits_step h ht hwait with
        ⟨hpicks, hcursor, hlater⟩ | hpicks
          | ⟨k, hk, hkt, hpicks, hstep, hle, hlater⟩
      · rw [hpicks]
        rw [hcursor] at ih'
        exact ih' hlater
      · rw [hpicks, List.takeWhile_cons_of_neg (by simp)]
        exact ⟨List.nodup_nil, fun x hx => by cases hx⟩
      · have hne : (k : Int) ≠ t := by omega
        obtain ⟨hnodup, hgap⟩ := ih' hlater
        rw [hpicks, List.takeWhile_cons_of_pos (by simpa using hne)]
        refine ⟨List.nodup_cons.mpr ⟨fun hmem => ?_, hnodup⟩, fun x hx => ?_⟩
        · obtain ⟨j, -, hj, hgj⟩ := hgap k hmem
          have hjk : j = k := by omega
          rw [hjk] at hgj
          omega
        · rcases List.mem_cons.mp hx with hx | hx
          · exact ⟨k, hk, hx, hle⟩
          · obtain ⟨j, hj, hxj, hgj⟩ := hgap x hx
            exact ⟨j, hj, hxj, by omega⟩

/-- Round-robin bounded waiting: from any reachable state, a slot that
is READY whenever `sched_pick_next` is called, until it is picked, is
picked within `cap` picks, and no other slot is picked twice before
it. -/
theorem round_robin_bounded_waiting (cap : Nat) (pre ops : List Op) (t : Nat)
    (ht : t < cap) (hwait : Waits t (exec step (schedInit cap) pre) ops) :
    (cap ≤ (picks (exec step (schedInit cap) pre) ops).length →
        (t : Int) ∈ (picks (exec step (schedInit cap) pre) ops).take cap)
      ∧ ((picks (exec step (schedInit cap) pre) ops).takeWhile
          (· ≠ (t : Int))).Nodup := by
  have h := runningInv_reachable cap pre
  have hcap : (exec step (schedInit cap) pre).cap = cap := by
    rw [cap_exec (runningInv_init cap) pre, cap_schedInit]
  have ht' : t < (exec step (schedInit cap) pre).cap := by
    rw [hcap]
    exact ht
  refine ⟨fun hlen => ?_, (picks_before h ht' hwait).1⟩
  have hgap := gap_lt (n := (exec step (schedInit cap) pre).cap)
    (a := (exec step (schedInit cap) pre).cursor) (b := t) (by omega)
  rw [hcap] at hgap
  refine mem_picks_of_gap_lt h ht' hwait cap ?_ hlen
  rw [hcap]
  exact hgap

/-- A run the bound applies to: slot 1 waits behind slot 0, and a block
and a tick come in between. Picked once, slot 1 is running at the third
pick and the bound holds all the same. -/
theorem round_robin_bounded_waiting_two :
    (1 : Int) ∈ (picks (exec step (schedInit 2) [.add 5 1, .add 6 1])
        [.pickNext, .onTick, .block 5, .pickNext, .pickNext]).take 2
      ∧ ((picks (exec step (schedInit 2) [.add 5 1, .add 6 1])
          [.pickNext, .onTick, .block 5, .pickNext, .pickNext]).takeWhile
            (· ≠ ((1 : Nat) : Int))).Nodup := by
  have h := round_robin_bounded_waiting 2 [.add 5 1, .add 6 1]
    [.pickNext, .onTick, .block 5, .pickNext, .pickNext] 1 (by decide)
    (by decide +kernel)
  exact ⟨h.1 (by decide), h.2⟩

end Thuos.Sched
