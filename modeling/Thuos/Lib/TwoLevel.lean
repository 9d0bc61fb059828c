/-
Two-level maps over a pool of tables.

A root points keys to tables, and a table has been filled for one key,
with an attribute. `lookup` goes through both, so a key whose table was
refilled for another key silently reads that key's contents. The root
never forgets: `bind` refills one table and points one key to it, and
leaves every other pointer to that table in place. `assign` is a row of
`bind`s for distinct keys and distinct tables.

Which lookups survive is exact: a key outside the row keeps its lookup
unless the row refills the table that the key points to
(`lookup_assign_outside`, `lookup_assign_refilled`).
-/
import Mathlib

structure TwoLevel (κ τ α : Type*) where
  root : κ → Option τ
  leaf : τ → Option (κ × α)

namespace TwoLevel

variable {κ τ α : Type*}

/-- What key `k` reads. -/
def lookup (d : TwoLevel κ τ α) (k : κ) : Option (κ × α) :=
  (d.root k).bind d.leaf

/-- Every table pointed to has been filled. -/
def Filled (d : TwoLevel κ τ α) : Prop :=
  ∀ k t, d.root k = some t → (d.leaf t).isSome

section Assign

variable [DecidableEq κ] [DecidableEq τ]

/-- Fill table `t` for key `k`, and point `k` to it. -/
def bind (d : TwoLevel κ τ α) (k : κ) (t : τ) (a : α) : TwoLevel κ τ α where
  root := fun j => if j = k then some t else d.root j
  leaf := fun u => if u = t then some (k, a) else d.leaf u

/-- Bind the keys `key 0 .. key (n-1)` to the tables `tab 0 ..
tab (n-1)`. -/
def assign (d : TwoLevel κ τ α) (key : Nat → κ) (tab : Nat → τ) (a : α) :
    Nat → TwoLevel κ τ α
  | 0 => d
  | n + 1 => (assign d key tab a n).bind (key n) (tab n) a

variable {d : TwoLevel κ τ α} {key : Nat → κ} {tab : Nat → τ} {a : α}
  {n i : Nat} {j : κ} {u : τ}

theorem root_assign_outside (hj : ∀ i < n, j ≠ key i) :
    (d.assign key tab a n).root j = d.root j := by
  induction n with
  | zero => rfl
  | succ n ih =>
      have hn : j ≠ key n := hj n (Nat.lt_succ_self n)
      show (if j = key n then some (tab n) else _) = _
      rw [if_neg hn]
      exact ih fun i hi => hj i (Nat.lt_succ_of_lt hi)

theorem leaf_assign_outside (hu : ∀ i < n, u ≠ tab i) :
    (d.assign key tab a n).leaf u = d.leaf u := by
  induction n with
  | zero => rfl
  | succ n ih =>
      have hn : u ≠ tab n := hu n (Nat.lt_succ_self n)
      show (if u = tab n then some (key n, a) else _) = _
      rw [if_neg hn]
      exact ih fun i hi => hu i (Nat.lt_succ_of_lt hi)

theorem root_assign (hkey : key.Injective) (hi : i < n) :
    (d.assign key tab a n).root (key i) = some (tab i) := by
  induction n with
  | zero => exact absurd hi (Nat.not_lt_zero i)
  | succ n ih =>
      show (if key i = key n then some (tab n) else _) = _
      by_cases hin : i = n
      · rw [hin, if_pos rfl]
      · rw [if_neg (hkey.ne hin)]
        exact ih (by omega)

theorem leaf_assign (htab : tab.Injective) (hi : i < n) :
    (d.assign key tab a n).leaf (tab i) = some (key i, a) := by
  induction n with
  | zero => exact absurd hi (Nat.not_lt_zero i)
  | succ n ih =>
      show (if tab i = tab n then some (key n, a) else _) = _
      by_cases hin : i = n
      · rw [hin, if_pos rfl]
      · rw [if_neg (htab.ne hin)]
        exact ih (by omega)

/-- A key of the row reads its own contents. -/
theorem lookup_assign (hkey : key.Injective) (htab : tab.Injective)
    (hi : i < n) :
    (d.assign key tab a n).lookup (key i) = some (key i, a) := by
  unfold lookup
  rw [root_assign hkey hi, Option.bind_some, leaf_assign htab hi]

/-- Another key keeps its lookup when its table is not refilled. -/
theorem lookup_assign_outside (hj : ∀ i < n, j ≠ key i)
    (hkept : ∀ i < n, d.root j ≠ some (tab i)) :
    (d.assign key tab a n).lookup j = d.lookup j := by
  unfold lookup
  rw [root_assign_outside hj]
  cases hroot : d.root j with
  | none => rfl
  | some u =>
      refine leaf_assign_outside fun i hi hu => hkept i hi ?_
      rw [hroot, hu]

/-- Else it reads the key that its table was refilled for. -/
theorem lookup_assign_refilled (htab : tab.Injective)
    (hj : ∀ i < n, j ≠ key i) (hi : i < n)
    (hroot : d.root j = some (tab i)) :
    (d.assign key tab a n).lookup j = some (key i, a) := by
  unfold lookup
  rw [root_assign_outside hj, hroot, Option.bind_some, leaf_assign htab hi]

theorem filled_assign (h : d.Filled) : (d.assign key tab a n).Filled := by
  induction n with
  | zero => exact h
  | succ n ih =>
      intro k t hk
      have hk : (if k = key n then some (tab n)
          else (d.assign key tab a n).root k) = some t := hk
      show (if t = tab n then some (key n, a) else _).isSome
      by_cases ht : t = tab n
      · rw [if_pos ht]
        rfl
      · rw [if_neg ht]
        by_cases hkn : k = key n
        · rw [if_pos hkn] at hk
          exact absurd (Option.some.inj hk).symm ht
        · rw [if_neg hkn] at hk
          exact ih k t hk

end Assign

end TwoLevel
