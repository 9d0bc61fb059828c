/-
Text broken into rows.

`Wraps` says what the rows of a text are: a row ends where a newline is,
which is dropped, or when it is full and another character comes. There is
one way to break a text so (`Wraps.unique`). No row is longer than full
(`Wraps.length_le`), and the rows are the text without its newlines
(`Wraps.flatten`).
-/
import Mathlib

namespace Wrap

variable {α : Type*} {cols : Nat} {nl : α}

inductive Wraps (cols : Nat) (nl : α) : List α → List (List α) → Prop
  | last {row : List α} (hnl : nl ∉ row) (hlen : row.length ≤ cols) :
      Wraps cols nl row [row]
  | hard {row text : List α} {rows : List (List α)} (hnl : nl ∉ row)
      (hlen : row.length ≤ cols) (h : Wraps cols nl text rows) :
      Wraps cols nl (row ++ nl :: text) (row :: rows)
  | soft {row text : List α} {a : α} {rows : List (List α)} (hnl : nl ∉ row)
      (hlen : row.length = cols) (ha : a ≠ nl)
      (h : Wraps cols nl (a :: text) rows) :
      Wraps cols nl (row ++ a :: text) (row :: rows)

-- ================================================================= the rows

theorem Wraps.length_le {text : List α} {rows : List (List α)}
    (h : Wraps cols nl text rows) : ∀ row ∈ rows, row.length ≤ cols := by
  induction h with
  | last _ hlen =>
      intro row hrow
      rw [List.mem_singleton.mp hrow]
      exact hlen
  | hard _ hlen _ ih =>
      intro row hrow
      rcases List.mem_cons.mp hrow with rfl | hrow
      · exact hlen
      · exact ih row hrow
  | soft _ hlen _ _ ih =>
      intro row hrow
      rcases List.mem_cons.mp hrow with rfl | hrow
      · exact Nat.le_of_eq hlen
      · exact ih row hrow

/-- Nothing is lost but the newlines. -/
theorem Wraps.flatten [DecidableEq α] {text : List α} {rows : List (List α)}
    (h : Wraps cols nl text rows) :
    rows.flatten = text.filter (· ≠ nl) := by
  have hkeep : ∀ {row : List α}, nl ∉ row → row.filter (· ≠ nl) = row := by
    intro row hnl
    refine List.filter_eq_self.mpr fun a ha => decide_eq_true ?_
    rintro rfl
    exact hnl ha
  induction h with
  | last hnl _ => rw [List.flatten_singleton, hkeep hnl]
  | hard hnl _ _ ih =>
      rw [List.flatten_cons, ih, List.filter_append, hkeep hnl]
      simp
  | soft hnl _ ha _ ih =>
      rw [List.flatten_cons, ih, List.filter_append, hkeep hnl]

theorem Wraps.subset {text : List α} {rows : List (List α)}
    (h : Wraps cols nl text rows) {row : List α} (hrow : row ∈ rows) {a : α}
    (ha : a ∈ row) : a ∈ text := by
  induction h with
  | last _ _ =>
      rw [List.mem_singleton.mp hrow] at ha
      exact ha
  | hard _ _ _ ih =>
      rcases List.mem_cons.mp hrow with rfl | hrow
      · exact List.mem_append_left _ ha
      · exact List.mem_append_right _ (List.mem_cons_of_mem _ (ih hrow))
  | soft _ _ _ _ ih =>
      rcases List.mem_cons.mp hrow with rfl | hrow
      · exact List.mem_append_left _ ha
      · exact List.mem_append_right _ (ih hrow)

section Unique

variable [DecidableEq α] {text row : List α} {rows : List (List α)}

/-- How long the first row of a text is. -/
def breadth (cols : Nat) (nl : α) (text : List α) : Nat :=
  min cols (text.idxOf nl)

theorem breadth_last (hnl : nl ∉ row) (hlen : row.length ≤ cols) :
    breadth cols nl row = row.length := by
  unfold breadth
  rw [List.idxOf_eq_length hnl]
  omega

theorem breadth_hard (hnl : nl ∉ row) (hlen : row.length ≤ cols) :
    breadth cols nl (row ++ nl :: text) = row.length := by
  unfold breadth
  rw [List.idxOf_append_of_notMem hnl, List.idxOf_cons_self]
  omega

theorem breadth_soft (hnl : nl ∉ row) (hlen : row.length = cols) :
    breadth cols nl (row ++ text) = row.length := by
  unfold breadth
  rw [List.idxOf_append_of_notMem hnl]
  omega

/-- What follows the first row. -/
inductive Follows (cols : Nat) (nl : α) : List α → List (List α) → Prop
  | nothing : Follows cols nl [] []
  | hard {text : List α} {rows : List (List α)} (h : Wraps cols nl text rows) :
      Follows cols nl (nl :: text) rows
  | soft {text : List α} {a : α} {rows : List (List α)} (ha : a ≠ nl)
      (h : Wraps cols nl (a :: text) rows) : Follows cols nl (a :: text) rows

/-- The first row is what its breadth says, and the others follow. -/
theorem Wraps.split (h : Wraps cols nl text rows) :
    ∃ rest, rows = text.take (breadth cols nl text) :: rest
      ∧ Follows cols nl (text.drop (breadth cols nl text)) rest := by
  cases h with
  | last hnl hlen =>
      rw [breadth_last hnl hlen, List.take_length, List.drop_length]
      exact ⟨_, rfl, .nothing⟩
  | hard hnl hlen h =>
      rw [breadth_hard hnl hlen, List.take_left, List.drop_left]
      exact ⟨_, rfl, .hard h⟩
  | soft hnl hlen ha h =>
      rw [breadth_soft hnl hlen, List.take_left, List.drop_left]
      exact ⟨_, rfl, .soft ha h⟩

/-- There is one way to break a text into rows. -/
theorem Wraps.unique {rows' : List (List α)} (h : Wraps cols nl text rows)
    (h' : Wraps cols nl text rows') : rows = rows' := by
  induction h generalizing rows' with
  | last hnl hlen =>
      obtain ⟨rest, rfl, hrest⟩ := h'.split
      rw [breadth_last hnl hlen, List.drop_length] at hrest
      rw [breadth_last hnl hlen, List.take_length]
      cases hrest
      rfl
  | hard hnl hlen _ ih =>
      obtain ⟨rest, rfl, hrest⟩ := h'.split
      rw [breadth_hard hnl hlen, List.drop_left] at hrest
      rw [breadth_hard hnl hlen, List.take_left]
      cases hrest with
      | hard h => rw [ih h]
      | soft ha _ => exact absurd rfl ha
  | soft hnl hlen ha _ ih =>
      obtain ⟨rest, rfl, hrest⟩ := h'.split
      rw [breadth_soft hnl hlen, List.drop_left] at hrest
      rw [breadth_soft hnl hlen, List.take_left]
      cases hrest with
      | hard _ => exact absurd rfl ha
      | soft _ h => rw [ih h]

end Unique

end Wrap
