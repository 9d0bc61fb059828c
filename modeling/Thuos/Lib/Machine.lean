/-
Runs of deterministic machines: a step function folded over a list of
operations, the conditions a run meets on the way, and the one
induction every whole-run result goes through.

Two shapes are covered:

- a total machine (`step : σ → α → σ`), whose run `exec` always ends in
  a state;
- a machine whose step can fail to return (`step : σ → α → Option σ`,
  `none` for a loop that ran out of fuel), whose run `execM` is `none`
  as soon as one step is.

A condition on a step may read the state the step starts from and the
operation (`Along`, `AlongM`); `exec_inv` and `execM_inv` carry an
invariant across every run whose steps all meet the condition. The
partial rule is a total-correctness rule: it also says that the run
returns.
-/
import Mathlib

namespace Machine

variable {σ α : Type*}

-- ======================================================= total machines

section Total

variable (step : σ → α → σ)

/-- The state a run of operations ends in. -/
def exec (s : σ) (ops : List α) : σ := ops.foldl step s

@[simp] theorem exec_nil (s : σ) : exec step s [] = s := rfl

@[simp] theorem exec_cons (s : σ) (a : α) (ops : List α) :
    exec step s (a :: ops) = exec step (step s a) ops := rfl

theorem exec_append (s : σ) (xs ys : List α) :
    exec step s (xs ++ ys) = exec step (exec step s xs) ys :=
  List.foldl_append

/-- Every operation of the run meets `C` in the state it starts from. -/
def Along (C : σ → α → Prop) : σ → List α → Prop
  | _, [] => True
  | s, a :: ops => C s a ∧ Along C (step s a) ops

instance decidableAlong (C : σ → α → Prop) [∀ s a, Decidable (C s a)] :
    ∀ s ops, Decidable (Along step C s ops)
  | _, [] => isTrue trivial
  | s, a :: ops =>
      have := decidableAlong C (step s a) ops
      inferInstanceAs (Decidable (C s a ∧ Along step C (step s a) ops))

variable {step} {C : σ → α → Prop}

theorem along_append {s : σ} {xs ys : List α} :
    Along step C s (xs ++ ys)
      ↔ Along step C s xs ∧ Along step C (exec step s xs) ys := by
  induction xs generalizing s with
  | nil => simp [Along]
  | cons a xs ih => simp [Along, ih, and_assoc]

theorem along_of_forall (hC : ∀ s a, C s a) {s : σ} {ops : List α} :
    Along step C s ops := by
  induction ops generalizing s with
  | nil => trivial
  | cons a ops ih => exact ⟨hC s a, ih⟩

theorem along_mono {D : σ → α → Prop} (hCD : ∀ s a, C s a → D s a)
    {s : σ} {ops : List α} (h : Along step C s ops) : Along step D s ops := by
  induction ops generalizing s with
  | nil => trivial
  | cons a ops ih => exact ⟨hCD s a h.1, ih h.2⟩

theorem along_of_mem {P : α → Prop} {s : σ} {ops : List α}
    (h : ∀ a ∈ ops, P a) : Along step (fun _ a => P a) s ops := by
  induction ops generalizing s with
  | nil => trivial
  | cons a ops ih =>
      obtain ⟨ha, hops⟩ := List.forall_mem_cons.mp h
      exact ⟨ha, ih hops⟩

/-- A condition on the steps of a run, weakened with the help of an
invariant it maintains. -/
theorem along_imp {D : σ → α → Prop} (Inv : σ → Prop)
    (hstep : ∀ s a, Inv s → C s a → Inv (step s a) ∧ D s a)
    {s : σ} {ops : List α} (hs : Inv s) (h : Along step C s ops) :
    Along step D s ops := by
  induction ops generalizing s with
  | nil => trivial
  | cons a ops ih =>
      obtain ⟨hinv, hD⟩ := hstep s a hs h.1
      exact ⟨hD, ih hinv h.2⟩

theorem along_and {D : σ → α → Prop} {s : σ} {ops : List α}
    (hC : Along step C s ops) (hD : Along step D s ops) :
    Along step (fun s a => C s a ∧ D s a) s ops := by
  induction ops generalizing s with
  | nil => trivial
  | cons a ops ih => exact ⟨⟨hC.1, hD.1⟩, ih hC.2 hD.2⟩

/-- The run rule: what every step under `C` preserves, every run under
`C` preserves. -/
theorem exec_inv (Inv : σ → Prop)
    (hstep : ∀ s a, Inv s → C s a → Inv (step s a)) :
    ∀ {ops : List α} {s : σ}, Inv s → Along step C s ops →
      Inv (exec step s ops) := by
  intro ops
  induction ops with
  | nil => intro s hs _; exact hs
  | cons a ops ih =>
      intro s hs hC
      exact ih (hstep s a hs hC.1) hC.2

/-- The run rule without a condition on the steps. -/
theorem exec_inv' (Inv : σ → Prop) (hstep : ∀ s a, Inv s → Inv (step s a))
    {ops : List α} {s : σ} (hs : Inv s) : Inv (exec step s ops) := by
  induction ops generalizing s with
  | nil => exact hs
  | cons a ops ih => exact ih (hstep s a hs)

/-- A property holds in every state of a run exactly when all its steps
meet a condition: a step that meets it keeps an invariant behind the
property, and one that does not loses the property. -/
theorem prefixes_iff {P : σ → Prop} {ok : α → Prop} (Inv : σ → Prop)
    (hP : ∀ s, Inv s → P s)
    (hkeep : ∀ s a, Inv s → ok a → C s a → Inv (step s a))
    (hlose : ∀ s a, Inv s → ok a → ¬ C s a → ¬ P (step s a))
    {s : σ} (hs : Inv s) {ops : List α} (hops : ∀ a ∈ ops, ok a) :
    (∀ pre, pre <+: ops → P (exec step s pre)) ↔ Along step C s ops := by
  induction ops generalizing s with
  | nil =>
      constructor
      · intro _
        trivial
      · intro _ pre hpre
        rw [List.prefix_nil.mp hpre]
        exact hP s hs
  | cons a ops ih =>
      obtain ⟨ha, hmore⟩ := List.forall_mem_cons.mp hops
      constructor
      · intro hall
        have hC : C s a := by
          by_contra hno
          exact hlose s a hs ha hno (hall [a] ⟨ops, rfl⟩)
        refine ⟨hC, (ih (hkeep s a hs ha hC) hmore).mp fun pre hpre => ?_⟩
        exact hall (a :: pre) (List.cons_prefix_cons.mpr ⟨rfl, hpre⟩)
      · rintro ⟨hC, halong⟩ pre hpre
        cases pre with
        | nil => exact hP s hs
        | cons b pre =>
            obtain ⟨rfl, hrest⟩ := List.cons_prefix_cons.mp hpre
            exact (ih (hkeep s b hs ha hC) hmore).mpr halong pre hrest

end Total

-- ===================================================== partial machines

section Partial

variable (step : σ → α → Option σ)

/-- The state a run of operations ends in, if every step returned. -/
def execM (s : σ) : List α → Option σ
  | [] => some s
  | a :: ops => (step s a).bind fun t => execM t ops

theorem execM_cons (s : σ) (a : α) (ops : List α) :
    execM step s (a :: ops) = (step s a).bind fun t => execM step t ops :=
  rfl

theorem execM_append (s : σ) (xs ys : List α) :
    execM step s (xs ++ ys)
      = (execM step s xs).bind fun t => execM step t ys := by
  induction xs generalizing s with
  | nil => rfl
  | cons a xs ih =>
      rw [List.cons_append, execM_cons, execM_cons, Option.bind_assoc]
      congr 1
      funext t
      exact ih t

/-- Every operation of the run meets `C` in the state it starts from, as
far as the run gets. -/
def AlongM (C : σ → α → Prop) : σ → List α → Prop
  | _, [] => True
  | s, a :: ops => C s a ∧ ∀ t, step s a = some t → AlongM C t ops

instance decidableAlongM (C : σ → α → Prop) [∀ s a, Decidable (C s a)] :
    ∀ s ops, Decidable (AlongM step C s ops)
  | _, [] => isTrue trivial
  | s, a :: ops =>
      have : Decidable (∀ t, step s a = some t → AlongM step C t ops) :=
        match step s a with
        | none => isTrue fun _ ht => nomatch ht
        | some t =>
            match decidableAlongM C t ops with
            | isTrue ht => isTrue fun _ hu => Option.some.inj hu ▸ ht
            | isFalse ht => isFalse fun hall => ht (hall t rfl)
      inferInstanceAs (Decidable (C s a
        ∧ ∀ t, step s a = some t → AlongM step C t ops))

variable {step} {C : σ → α → Prop}

/-- The total-correctness run rule: if every step under `C` returns and
preserves the invariant, so does every run under `C`. -/
theorem execM_inv (Inv : σ → Prop)
    (hstep : ∀ s a, Inv s → C s a → ∃ t, step s a = some t ∧ Inv t) :
    ∀ {ops : List α} {s : σ}, Inv s → AlongM step C s ops →
      ∃ t, execM step s ops = some t ∧ Inv t := by
  intro ops
  induction ops with
  | nil => intro s hs _; exact ⟨s, rfl, hs⟩
  | cons a ops ih =>
      intro s hs hC
      obtain ⟨t, ht, hInv⟩ := hstep s a hs hC.1
      obtain ⟨u, hu, hInv'⟩ := ih hInv (hC.2 t ht)
      exact ⟨u, by rw [execM_cons, ht]; exact hu, hInv'⟩

end Partial

end Machine
