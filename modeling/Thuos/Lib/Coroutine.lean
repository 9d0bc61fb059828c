/-
Threads that share their state with surroundings they do not control.

A `Proc` is a program over a state `σ`: it reads and writes the state,
and at a `pause`, labelled with the place it stands at, the surroundings
may change the state before the program goes on. Between two pauses it
runs undisturbed. A `Conf` is a state with a program at a pause or at its
end; a run is a list of turns, each a move of the surroundings, a piece
of the program, or a call that starts the next program.

The rule for runs is one of rely and guarantee. `Holds` is the weakest
precondition of a program: at each pause the invariant `I` has to hold,
and from there on the program may assume `I`, the rely `R` and the
condition `C` of the place. If every move of the surroundings keeps `I`
and is allowed by `R`, and every body meets `Holds`, then `Safe` holds of
every configuration in a run whose steps meet their conditions
(`run_safe`). `May` is the other side: what some moves of the
surroundings can bring a program to, some run does come to (`May.run`).
-/
import Thuos.Lib.Machine

namespace Coroutine

inductive Proc (ℓ σ α : Type) : Type where
  | ret (a : α)
  | get (k : σ → Proc ℓ σ α)
  | put (s : σ) (p : Proc ℓ σ α)
  | pause (l : ℓ) (p : Proc ℓ σ α)

variable {ℓ σ α β μ κ : Type}

namespace Proc

-- ============================================================ the programs

def bind : Proc ℓ σ α → (α → Proc ℓ σ β) → Proc ℓ σ β
  | ret a, f => f a
  | get k, f => get fun s => bind (k s) f
  | put s p, f => put s (bind p f)
  | pause l p, f => pause l (bind p f)

instance : Monad (Proc ℓ σ) where
  pure := ret
  bind := bind

/-- Read something of the state. -/
def read (f : σ → α) : Proc ℓ σ α := get fun s => ret (f s)

/-- Change the state. -/
def modify (f : σ → σ) : Proc ℓ σ Unit := get fun s => put (f s) (ret ())

/-- Let the surroundings act. -/
def yield (l : ℓ) : Proc ℓ σ Unit := pause l (ret ())

/-- Run on to the next pause or to the end. -/
def advance : Proc ℓ σ α → σ → σ × Proc ℓ σ α
  | ret a, s => (s, ret a)
  | get k, s => advance (k s) s
  | put t p, _ => advance p t
  | pause l p, s => (s, pause l p)

/-- What the program has come to, at its end. -/
def result : Proc ℓ σ α → Option α
  | ret a => some a
  | _ => none

/-- At a pause, or at the end. -/
def AtRest : Proc ℓ σ α → Prop
  | ret _ => True
  | get _ => False
  | put _ _ => False
  | pause _ _ => True

/-- A process that was advanced is at a pause, or has returned. -/
theorem advance_atRest (p : Proc ℓ σ α) (s : σ) : (advance p s).2.AtRest := by
  induction p generalizing s with
  | ret a => trivial
  | get k ih => exact ih s s
  | put t p ih => exact ih t
  | pause l p ih => trivial

end Proc

open Proc

-- ================================================================ the runs

structure Conf (ℓ σ α : Type) where
  state : σ
  prog : Proc ℓ σ α

/-- A turn in a run: the surroundings move, the program goes on, or,
after its end, the next one is called. -/
inductive Turn (μ κ : Type) where
  | move (m : μ)
  | go
  | call (k : κ)

/-- Start `p` in the state `s`. -/
def launch (p : Proc ℓ σ α) (s : σ) : Conf ℓ σ α :=
  ⟨(advance p s).1, (advance p s).2⟩

section Step

variable (act : σ → μ → σ) (body : κ → Proc ℓ σ α)

def step (c : Conf ℓ σ α) : Turn μ κ → Conf ℓ σ α
  | .move m => { c with state := act c.state m }
  | .go =>
      match c.prog with
      | .pause _ p => launch p c.state
      | _ => c
  | .call k =>
      match c.prog with
      | .ret _ => launch (body k) c.state
      | _ => c

end Step

-- =============================================================== the logic

section Holds

variable (I : σ → Prop) (R : σ → σ → Prop) (C : ℓ → σ → Prop)

/-- The weakest precondition of a program, for the postcondition `Q`. -/
def Holds : Proc ℓ σ α → (α → σ → Prop) → σ → Prop
  | .ret a, Q, s => Q a s
  | .get k, Q, s => Holds (k s) Q s
  | .put t p, Q, _ => Holds p Q t
  | .pause l p, Q, s => I s ∧ ∀ t, R s t → I t → C l t → Holds p Q t

variable {I R C} {Q Q' : α → σ → Prop}

/-- A process that returns keeps its promise if the state meets it. -/
@[simp] theorem holds_pure (a : α) (s : σ) :
    Holds I R C (pure a) Q s ↔ Q a s := Iff.rfl

/-- To read is to promise about the value that the state gives. -/
@[simp] theorem holds_read (f : σ → α) (s : σ) :
    Holds I R C (read f) Q s ↔ Q (f s) s := Iff.rfl

/-- To write is to promise about the state that is written. -/
@[simp] theorem holds_modify {Q : Unit → σ → Prop} (f : σ → σ) (s : σ) :
    Holds I R C (modify f) Q s ↔ Q () (f s) := Iff.rfl

/-- A pause needs the invariant, and may count on it with whatever the others
are held to. -/
@[simp] theorem holds_yield {Q : Unit → σ → Prop} (l : ℓ) (s : σ) :
    Holds I R C (yield l) Q s
      ↔ I s ∧ ∀ t, R s t → I t → C l t → Q () t := Iff.rfl

/-- Of two processes, the first has to promise what the second needs. -/
@[simp] theorem holds_bind (p : Proc ℓ σ α) (f : α → Proc ℓ σ β)
    {Q : β → σ → Prop} (s : σ) :
    Holds I R C (p >>= f) Q s
      ↔ Holds I R C p (fun a t => Holds I R C (f a) Q t) s := by
  show Holds I R C (p.bind f) Q s ↔ _
  induction p generalizing s with
  | ret a => exact Iff.rfl
  | get k ih => exact ih s s
  | put t p ih => exact ih t
  | pause l p ih =>
      exact and_congr_right fun _ => forall₄_congr fun t _ _ _ => ih t

/-- A promise may be weakened. -/
theorem Holds.mono {p : Proc ℓ σ α} (hQ : ∀ a s, Q a s → Q' a s) :
    ∀ {s}, Holds I R C p Q s → Holds I R C p Q' s := by
  induction p with
  | ret a => exact fun h => hQ a _ h
  | get k ih => exact fun {s} h => ih s h
  | put t p ih => exact fun h => ih h
  | pause l p ih =>
      exact fun h => ⟨h.1, fun t hR hI hC => ih (h.2 t hR hI hC)⟩

/-- A process that keeps its promise keeps it when it has been advanced to
its next pause. -/
theorem holds_advance {p : Proc ℓ σ α} :
    ∀ {s}, Holds I R C p Q s →
      Holds I R C (advance p s).2 Q (advance p s).1 := by
  induction p with
  | ret a => exact fun h => h
  | get k ih => exact fun {s} h => ih s h
  | put t p ih => exact fun h => ih h
  | pause l p ih => exact fun h => h

end Holds

-- ================================================= what a run can come to

section May

variable (act : σ → μ → σ)

/-- Some moves of the surroundings, made where the program pauses, bring
it to its end in `P`. -/
def May : Proc ℓ σ α → (α → σ → Prop) → σ → Prop
  | .ret a, P, s => P a s
  | .get k, P, s => May (k s) P s
  | .put t p, P, _ => May p P t
  | .pause _ p, P, s => ∃ moves : List μ, May p P (moves.foldl act s)

variable {act} {P : α → σ → Prop}

/-- A process that returns can reach a property if the state has it. -/
@[simp] theorem may_pure (a : α) (s : σ) :
    May act (pure a : Proc ℓ σ α) P s ↔ P a s := Iff.rfl

/-- To read reaches what the value reaches. -/
@[simp] theorem may_read (f : σ → α) (s : σ) :
    May act (read f : Proc ℓ σ α) P s ↔ P (f s) s := Iff.rfl

/-- To write reaches what the state that is written reaches. -/
@[simp] theorem may_modify {P : Unit → σ → Prop} (f : σ → σ) (s : σ) :
    May act (modify f : Proc ℓ σ Unit) P s ↔ P () (f s) := Iff.rfl

/-- At a pause the others may make any moves, so one list of them is enough.
-/
@[simp] theorem may_yield {P : Unit → σ → Prop} (l : ℓ) (s : σ) :
    May act (yield l : Proc ℓ σ Unit) P s
      ↔ ∃ moves : List μ, P () (moves.foldl act s) := Iff.rfl

/-- Of two processes, the first has to reach a state from which the second
goes on. -/
@[simp] theorem may_bind (p : Proc ℓ σ α) (f : α → Proc ℓ σ β)
    {P : β → σ → Prop} (s : σ) :
    May act (p >>= f) P s ↔ May act p (fun a t => May act (f a) P t) s := by
  show May act (p.bind f) P s ↔ _
  induction p generalizing s with
  | ret a => exact Iff.rfl
  | get k ih => exact ih s s
  | put t p ih => exact ih t
  | pause l p ih => exact exists_congr fun moves => ih (moves.foldl act s)

open Machine in

/-- While the process pauses, a list of moves is made one after another, and
the process stays where it is. -/
theorem exec_moves (body : κ → Proc ℓ σ α) (l : ℓ) (p : Proc ℓ σ α) :
    ∀ (moves : List μ) (s : σ),
      exec (step act body) ⟨s, .pause l p⟩ (moves.map Turn.move)
        = ⟨moves.foldl act s, .pause l p⟩ := by
  intro moves
  induction moves with
  | nil => exact fun s => rfl
  | cons m moves ih => exact fun s => ih (act s m)

open Machine in
/-- What a program may come to, some run comes to. -/
theorem May.run (body : κ → Proc ℓ σ α) {p : Proc ℓ σ α} :
    ∀ {s}, May act p P s →
      ∃ (turns : List (Turn μ κ)) (a : α) (t : σ),
        exec (step act body) (launch p s) turns = ⟨t, .ret a⟩ ∧ P a t := by
  induction p with
  | ret a => exact fun {s} h => ⟨[], a, s, rfl, h⟩
  | get k ih => exact fun {s} h => ih s h
  | put t p ih => exact fun h => ih h
  | pause l p ih =>
      intro s h
      obtain ⟨moves, h⟩ := h
      obtain ⟨turns, a, t, hrun, hP⟩ := ih h
      refine ⟨moves.map Turn.move ++ Turn.go :: turns, a, t, ?_, hP⟩
      rw [exec_append]
      show exec (step act body) (exec (step act body) ⟨s, .pause l p⟩ _) _ = _
      rw [exec_moves body l p moves s]
      exact hrun

end May

-- ================================================================ the rule

section Rule

variable (I : σ → Prop) (R : σ → σ → Prop) (C : ℓ → σ → Prop)
  (Q : α → σ → Prop) (M : σ → μ → Prop)

/-- A configuration from which the program keeps its promises. -/
structure Safe (c : Conf ℓ σ α) : Prop where
  rest : c.prog.AtRest
  inv : I c.state
  holds : Holds I R C c.prog Q c.state

/-- The condition on a turn: what the place where the program stands asks
of the state, and what a move has to meet. -/
def Meets (c : Conf ℓ σ α) : Turn μ κ → Prop
  | .move m => M c.state m
  | .go =>
      match c.prog with
      | .pause l _ => C l c.state
      | _ => True
  | .call _ => True

instance decidableMeets [∀ l s, Decidable (C l s)] [∀ s m, Decidable (M s m)]
    (c : Conf ℓ σ α) : ∀ turn : Turn μ κ, Decidable (Meets C M c turn)
  | .move m => inferInstanceAs (Decidable (M c.state m))
  | .go =>
      match h : c.prog with
      | .pause l _ => decidable_of_iff (C l c.state) (by simp [Meets, h])
      | .ret _ => isTrue (by simp [Meets, h])
      | .get _ => isTrue (by simp [Meets, h])
      | .put _ _ => isTrue (by simp [Meets, h])
  | .call _ => isTrue trivial

/-- The empty condition. -/
theorem meets_true (c : Conf ℓ σ α) (turn : Turn μ κ) :
    Meets (fun _ _ => True) (fun _ _ => True) c turn := by
  obtain ⟨s, p⟩ := c
  cases turn with
  | move m => trivial
  | go => cases p <;> trivial
  | call k => trivial

variable {I R C Q M} {act : σ → μ → σ}
  {body : κ → Proc ℓ σ α}

/-- A process that keeps its promise, with a result that gives the invariant,
may be started. -/
theorem launch_safe (hpost : ∀ a s, Q a s → I s) {p : Proc ℓ σ α} {s : σ}
    (h : Holds I R C p Q s) : Safe I R C Q (launch p s) := by
  have hrest := advance_atRest p s
  have hnext := holds_advance h
  refine ⟨hrest, ?_, hnext⟩
  show I (advance p s).1
  generalize advance p s = r at *
  obtain ⟨t, q⟩ := r
  cases q with
  | ret a => exact hpost a t hnext
  | get k => exact False.elim hrest
  | put u q => exact False.elim hrest
  | pause l q => exact hnext.1

/-- What a move of the surroundings leaves of a thread that rests. -/
theorem holds_move (htrans : ∀ s t u, R s t → R t u → R s u)
    (hstable : ∀ a s t, Q a s → R s t → I t → Q a t) {p : Proc ℓ σ α}
    (hrest : p.AtRest) {s t : σ} (hR : R s t) (hI : I t)
    (h : Holds I R C p Q s) : Holds I R C p Q t := by
  cases p with
  | ret a => exact hstable a s t h hR hI
  | get k => exact False.elim hrest
  | put u q => exact False.elim hrest
  | pause l q =>
      exact ⟨hI, fun u hR' hI' hC => h.2 u (htrans s t u hR hR') hI' hC⟩

/-- One turn keeps `Safe`. -/
theorem step_safe (htrans : ∀ s t u, R s t → R t u → R s u)
    (hrefl : ∀ s, R s s)
    (hpost : ∀ a s, Q a s → I s)
    (hstable : ∀ a s t, Q a s → R s t → I t → Q a t)
    (hmove : ∀ s m, I s → M s m → I (act s m) ∧ R s (act s m))
    (hbody : ∀ k a s, Q a s → Holds I R C (body k) Q s)
    (c : Conf ℓ σ α) (turn : Turn μ κ) (h : Safe I R C Q c)
    (hmeets : Meets C M c turn) : Safe I R C Q (step act body c turn) := by
  obtain ⟨s, p⟩ := c
  obtain ⟨hrest, hinv, hholds⟩ := h
  cases turn with
  | move m =>
      obtain ⟨hI, hR⟩ := hmove s m hinv hmeets
      exact ⟨hrest, hI, holds_move htrans hstable hrest hR hI hholds⟩
  | go =>
      cases p with
      | ret a => exact ⟨trivial, hinv, hholds⟩
      | get k => exact False.elim hrest
      | put u q => exact False.elim hrest
      | pause l q =>
          exact launch_safe hpost (hholds.2 s (hrefl s) hinv hmeets)
  | call k =>
      cases p with
      | ret a => exact launch_safe hpost (hbody k a s hholds)
      | get k => exact False.elim hrest
      | put u q => exact False.elim hrest
      | pause l q => exact ⟨trivial, hinv, hholds⟩

open Machine in
/-- The run rule. -/
theorem run_safe (htrans : ∀ s t u, R s t → R t u → R s u)
    (hrefl : ∀ s, R s s)
    (hpost : ∀ a s, Q a s → I s)
    (hstable : ∀ a s t, Q a s → R s t → I t → Q a t)
    (hmove : ∀ s m, I s → M s m → I (act s m) ∧ R s (act s m))
    (hbody : ∀ k a s, Q a s → Holds I R C (body k) Q s)
    {c : Conf ℓ σ α} {turns : List (Turn μ κ)} (h : Safe I R C Q c)
    (hmeets : Along (step act body) (Meets C M) c turns) :
    Safe I R C Q (exec (step act body) c turns) :=
  exec_inv (Safe I R C Q)
    (step_safe htrans hrefl hpost hstable hmove hbody) h hmeets

end Rule

end Coroutine
