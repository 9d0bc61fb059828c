/-
Walks along a partial step, as a loop takes them that moves a position
until there is none to move to.

`trail` is the loop on fuel: the positions it moved on from, and the one
it stopped at. What the loop computes on the way is a fold over the trail
(`loop_eq_trail`), and the trail is exactly what can be reached
(`Trail.reaches_iff`); facts about it go by the way it is made (`Trail`).

A loop that follows links it read from memory need not stop. On finitely
many positions it stops exactly when it can come back to none
(`stops_iff_acyclic`); the way there is accessibility, the induction a
stopping walk allows (`stops_iff_acc`).
-/
import Mathlib

namespace Walk

open Relation

variable {α σ : Type*} (next : α → Option α)

/-- `q` is the position after `p`. -/
def Follows (p q : α) : Prop := next p = some q

/-- `q` is on the walk from `p`. -/
abbrev Reaches : α → α → Prop := ReflTransGen (Follows next)

/-- The walk comes back to `p`. -/
def Returns (p : α) : Prop := TransGen (Follows next) p p

/-- The positions moved on from, and where the walk stopped. -/
def trail : Nat → α → Option (List α × α)
  | 0, _ => none
  | fuel + 1, p =>
      match next p with
      | none => some ([], p)
      | some q => (trail fuel q).map fun r => (p :: r.1, r.2)

/-- The walk stops. -/
def Stops (p : α) : Prop := ∃ fuel r, trail next fuel p = some r

/-- A loop over the walk that updates `s` at each position it moves on
from. -/
def loop (body : σ → α → σ) : Nat → α → σ → Option σ
  | 0, _, _ => none
  | fuel + 1, p, s =>
      match next p with
      | none => some s
      | some q => loop body fuel q (body s p)

variable {next}

theorem trail_none {fuel : Nat} {p : α} (h : next p = none) :
    trail next (fuel + 1) p = some ([], p) := by
  rw [trail, h]

theorem trail_some {fuel : Nat} {p q : α} (h : next p = some q) :
    trail next (fuel + 1) p
      = (trail next fuel q).map fun r => (p :: r.1, r.2) := by
  rw [trail, h]

/-- A loop folds its body over the trail. -/
theorem loop_eq_trail (body : σ → α → σ) (fuel : Nat) :
    ∀ p s, loop next body fuel p s
      = (trail next fuel p).map fun r => r.1.foldl body s := by
  induction fuel with
  | zero => intro p s; rfl
  | succ fuel ih =>
      intro p s
      cases h : next p with
      | none =>
          rw [trail_none h, loop, h]
          rfl
      | some q =>
          rw [trail_some h, Option.map_map, loop, h]
          exact ih q (body s p)

-- ============================================================== the trail

/-- A trail as it is made, from `p` to where there is no step. -/
inductive Trail (next : α → Option α) : α → List α → α → Prop
  | stop {p : α} (h : next p = none) : Trail next p [] p
  | go {p q last : α} {l : List α} (h : next p = some q)
      (rest : Trail next q l last) : Trail next p (p :: l) last

theorem trail_made {fuel : Nat} {p last : α} {l : List α}
    (h : trail next fuel p = some (l, last)) : Trail next p l last := by
  induction fuel generalizing p l with
  | zero => exact nomatch h
  | succ fuel ih =>
      cases hp : next p with
      | none =>
          rw [trail_none hp] at h
          cases h
          exact .stop hp
      | some q =>
          rw [trail_some hp] at h
          obtain ⟨⟨l', last'⟩, hq, heq⟩ := Option.map_eq_some_iff.mp h
          cases heq
          exact .go hp (ih hq)

/-- What is reached is `p` itself or reached from its successor. -/
theorem reaches_iff {p q x : α} (h : next p = some q) :
    Reaches next p x ↔ x = p ∨ Reaches next q x := by
  constructor
  · intro hx
    rcases ReflTransGen.cases_head hx with rfl | ⟨q', hq', hx⟩
    · exact Or.inl rfl
    · obtain rfl := Option.some.inj (h.symm.trans hq')
      exact Or.inr hx
  · rintro (rfl | hx)
    · exact ReflTransGen.refl
    · exact ReflTransGen.head h hx

theorem reaches_of_none {p x : α} (h : next p = none) :
    Reaches next p x ↔ x = p := by
  constructor
  · intro hx
    rcases ReflTransGen.cases_head hx with rfl | ⟨q, hq, -⟩
    · rfl
    · have hnone := h.symm.trans hq
      cases hnone
  · rintro rfl
    exact ReflTransGen.refl

section Trail

variable {p last x : α} {l : List α}

/-- A walk stops where there is no step. -/
theorem Trail.next_last (h : Trail next p l last) : next last = none := by
  induction h with
  | stop h => exact h
  | go h rest ih => exact ih

/-- The trail and its end are what the walk reaches. -/
theorem Trail.reaches_iff (h : Trail next p l last) :
    Reaches next p x ↔ x ∈ l ∨ x = last := by
  induction h with
  | stop h => simp [reaches_of_none h]
  | go h rest ih => rw [Walk.reaches_iff h, ih, List.mem_cons, or_assoc]

/-- The trail begins where the walk does, unless it ends there. -/
theorem Trail.head (h : Trail next p l last) (hne : p ≠ last) :
    ∃ l', l = p :: l' := by
  cases h with
  | stop h => exact absurd rfl hne
  | go h rest => exact ⟨_, rfl⟩

/-- The positions of the trail all have a successor. -/
theorem Trail.exists_next (h : Trail next p l last) (hx : x ∈ l) :
    ∃ y, next x = some y := by
  induction h with
  | stop h => exact absurd hx List.not_mem_nil
  | go h rest ih =>
      rcases List.mem_cons.mp hx with rfl | hx
      · exact ⟨_, h⟩
      · exact ih hx

end Trail

-- =========================================================== termination

/-- A walk that stops is one that can be done induction on. -/
theorem stops_iff_acc {p : α} :
    Stops next p ↔ Acc (Function.swap (Follows next)) p := by
  constructor
  · rintro ⟨fuel, r, h⟩
    induction fuel generalizing p r with
    | zero => exact nomatch h
    | succ fuel ih =>
        refine Acc.intro p fun q hq => ?_
        rw [trail_some hq] at h
        obtain ⟨r', hr', -⟩ := Option.map_eq_some_iff.mp h
        exact ih r' hr'
  · intro h
    induction h with
    | intro p _ ih =>
        cases hp : next p with
        | none => exact ⟨1, _, trail_none hp⟩
        | some q =>
            obtain ⟨fuel, r, hr⟩ := ih q hp
            refine ⟨fuel + 1, (p :: r.1, r.2), ?_⟩
            rw [trail_some hp, hr]
            rfl

theorem Stops.of_reaches {p q : α} (h : Stops next p)
    (hpq : Reaches next p q) : Stops next q := by
  rw [stops_iff_acc] at h ⊢
  induction hpq with
  | refl => exact h
  | tail _ hstep ih => exact ih.inv hstep

/-- A walk that stops comes back to nothing. -/
theorem Stops.not_returns {p : α} (h : Stops next p) : ¬ Returns next p := by
  have hacc := (stops_iff_acc.mp h).transGen
  intro hreturns
  have hself : TransGen (Function.swap (Follows next)) p p :=
    transGen_swap.mpr hreturns
  induction hacc with
  | intro x _ ih => exact ih x hself h hreturns hself

/-- On finitely many positions a walk that comes back to nothing stops. -/
theorem stops_of_acyclic {p : α} (hfin : {q | Reaches next p q}.Finite)
    (h : ∀ q, Reaches next p q → ¬ Returns next q) : Stops next p := by
  rw [stops_iff_acc]
  have : Finite {q // Reaches next p q} := hfin
  let later : {q // Reaches next p q} → {q // Reaches next p q} → Prop :=
    fun a b => TransGen (Follows next) b.1 a.1
  have : IsTrans _ later := ⟨fun a b c hab hbc => TransGen.trans hbc hab⟩
  have : Std.Irrefl later := ⟨fun a ha => h a.1 a.2 ha⟩
  have hwf := Finite.wellFounded_of_trans_of_irrefl later
  have hall : ∀ x : {q // Reaches next p q},
      Acc (Function.swap (Follows next)) x.1 := by
    intro x
    induction x using hwf.induction with
    | _ x ih =>
        refine Acc.intro x.1 fun q hq => ?_
        exact ih ⟨q, x.2.tail hq⟩ (TransGen.single hq)
  exact hall ⟨p, ReflTransGen.refl⟩

/-- A walk over finitely many positions stops exactly when it comes back
to none of them. -/
theorem stops_iff_acyclic {p : α} (hfin : {q | Reaches next p q}.Finite) :
    Stops next p ↔ ∀ q, Reaches next p q → ¬ Returns next q :=
  ⟨fun h _ hq => (h.of_reaches hq).not_returns, stops_of_acyclic hfin⟩

/-- Positions below a bound that every step keeps. -/
theorem finite_reaches {next : Nat → Option Nat} {p n : Nat} (hp : p < n)
    (hstep : ∀ a b, next a = some b → b < n) :
    {q | Reaches next p q}.Finite := by
  refine (Set.finite_lt_nat n).subset fun q hq => ?_
  cases hq with
  | refl => exact hp
  | tail _ hlast => exact hstep _ _ hlast

end Walk
