/-
A line of text on a terminal, edited at its end.

The line starts at the start of a row and wraps from row to row
(`HasLine`). A cell written makes it longer, in the next row where the
last one is full, and one row up where the screen has scrolled
(`HasLine.put`). A backspace makes it shorter only where the cursor is not
at the start of a row (`HasLine.backspace`): there it does nothing, and
the line is too long for the cursor (`HasLine.col_eq`).

On a screen where nothing stands behind the cursor (`Ahead`), and no
carriage return moves it back over what does, a line may start wherever
the cursor is at the start of a row.
-/
import Thuos.Lib.Terminal

namespace Terminal

variable {rows cols : Nat} {α : Type*}

/-- From row `start` on, the screen has the text, row by row, and blanks
behind it. -/
def Lined (blank : α) (start : Nat) (text : List α)
    (t : Terminal rows cols α) : Prop :=
  ∀ (y : Fin rows) (x : Fin cols), start * cols ≤ index cols y x →
    t.cell y x = (text[index cols y x - start * cols]?).getD blank

/-- The cursor is right behind the text. -/
structure HasLine (blank : α) (start : Nat) (text : List α)
    (t : Terminal rows cols α) : Prop where
  cursor : index cols t.row t.col = start * cols + text.length
  lined : Lined blank start text t

/-- From a place on, the screen is blank. -/
def BlankFrom (blank : α) (p : Nat) (t : Terminal rows cols α) : Prop :=
  ∀ (y : Fin rows) (x : Fin cols), p ≤ index cols y x → t.cell y x = blank

/-- It is blank from the cursor on. -/
def Ahead (blank : α) (t : Terminal rows cols α) : Prop :=
  BlankFrom blank (index cols t.row t.col) t

-- ============================================================== the next cell

section Next

variable {t : Terminal rows cols α} {blank : α} {start : Nat}
  {text : List α}

theorem getD_concat (text : List α) (a blank : α) (i : Nat) :
    ((text ++ [a])[i]?).getD blank
      = if i = text.length then a else (text[i]?).getD blank := by
  by_cases hlast : i = text.length
  · rw [if_pos hlast, hlast, List.getElem?_concat_length]
    rfl
  · rw [if_neg hlast]
    by_cases hin : i < text.length
    · rw [List.getElem?_append_left hin]
    · have hlen : (text ++ [a]).length = text.length + 1 := by simp
      rw [List.getElem?_eq_none (by omega), List.getElem?_eq_none (by omega)]

/-- The cell behind the cursor, written. -/
theorem HasLine.write (h : HasLine blank start text t) (a : α) :
    Lined blank start (text ++ [a]) (t.setCell t.row t.col a) := by
  intro y x hin
  have hcursor := h.cursor
  rw [getD_concat]
  unfold setCell
  dsimp only
  by_cases hcell : y = t.row ∧ x = t.col
  · have hlast : index cols y x - start * cols = text.length := by
      rw [hcell.1, hcell.2]
      omega
    rw [if_pos hcell, if_pos hlast]
  · have hother := mt index_inj.mp hcell
    have hlast : ¬ index cols y x - start * cols = text.length := by omega
    rw [if_neg hcell, if_neg hlast]
    exact h.lined y x hin

/-- The text of a scrolled screen starts one row up. -/
theorem Lined.scroll (h : Lined blank (start + 1) text t)
    (hlen : start * cols + text.length + cols ≤ rows * cols) :
    Lined blank start text (t.scroll blank) := by
  intro y x hin
  have hnext : (start + 1) * cols = start * cols + cols := Nat.succ_mul ..
  have hbelow : index cols (y.val + 1) x = index cols y x + cols := by
    unfold index
    rw [Nat.succ_mul]
    omega
  unfold Terminal.scroll
  dsimp only
  split
  · next hy =>
      have hcell := h ⟨y.val + 1, hy⟩ x
      dsimp only at hcell
      rw [hcell (by omega), hbelow, hnext, Nat.add_sub_add_right]
  · next hy =>
      have hlast : y.val + 1 = rows := by omega
      have hrow : (y.val + 1) * cols = y.val * cols + cols := Nat.succ_mul ..
      have hbehind : text.length ≤ index cols y x - start * cols := by
        rw [hlast] at hrow
        unfold index at hin ⊢
        omega
      rw [List.getElem?_eq_none hbehind]
      rfl

/-- The cursor on its last cell, the text moves it on. -/
theorem Lined.moveOn (h : Lined blank start text t)
    (hcursor : index cols t.row t.col + 1 = start * cols + text.length)
    (hroom : text.length < rows * cols) :
    ∃ start, HasLine blank start text (t.moveTo blank (t.col.val + 1)) := by
  have hcol := t.col.isLt
  have hrow : (t.row.val + 1) * cols = t.row.val * cols + cols :=
    Nat.succ_mul ..
  unfold moveTo
  unfold index at hcursor
  by_cases hx : t.col.val + 1 < cols
  · rw [dif_pos hx]
    refine ⟨start, ?_, h⟩
    unfold index
    dsimp only
    omega
  · rw [dif_neg hx]
    unfold newline
    by_cases hy : t.row.val + 1 < rows
    · rw [dif_pos hy]
      refine ⟨start, ?_, h⟩
      unfold index carriageReturn
      dsimp only
      omega
    · have hlast : t.row.val + 1 = rows := by
        have hlt := t.row.isLt
        omega
      rw [dif_neg hy]
      rw [hlast] at hrow
      -- the text would fill the screen if it started in the first row
      obtain ⟨up, rfl⟩ : ∃ up, start = up + 1 := by
        apply Nat.exists_eq_succ_of_ne_zero
        rintro rfl
        omega
      have hup : (up + 1) * cols = up * cols + cols := Nat.succ_mul ..
      have hlined : Lined blank (up + 1) text t.carriageReturn := h
      refine ⟨up, ?_, hlined.scroll (by omega)⟩
      unfold index Terminal.scroll carriageReturn
      dsimp only
      omega

/-- One more cell. -/
theorem HasLine.put (h : HasLine blank start text t) (a : α)
    (hroom : text.length + 1 < rows * cols) :
    ∃ start, HasLine blank start (text ++ [a]) (t.put blank a) := by
  have hlen : (text ++ [a]).length = text.length + 1 := by simp
  have hcursor := h.cursor
  refine Lined.moveOn (t := t.setCell t.row t.col a) (h.write a) ?_ ?_
  · show index cols t.row t.col + 1 = _
    omega
  · omega

/-- One cell less, in the row of the cursor. -/
theorem HasLine.backspace {a : α} (h : HasLine blank start (text ++ [a]) t)
    (hcol : t.col.val ≠ 0) : HasLine blank start text (t.backspace blank) := by
  have hlen : (text ++ [a]).length = text.length + 1 := by simp
  have hcursor := h.cursor
  unfold index at hcursor
  unfold Terminal.backspace
  rw [if_neg hcol]
  dsimp only
  refine ⟨?_, fun y x hin => ?_⟩
  · unfold index
    dsimp only [setCell]
    omega
  · have hcell := h.lined y x hin
    rw [getD_concat] at hcell
    unfold setCell
    dsimp only
    by_cases hlast : index cols y x - start * cols = text.length
    · have hplace : y = t.row ∧ x = ⟨t.col.val - 1, by omega⟩ := by
        rw [← index_inj]
        unfold index at hlast hin ⊢
        dsimp only
        omega
      rw [if_pos hplace, hlast, List.getElem?_eq_none (Nat.le_refl _)]
      rfl
    · rw [if_neg hlast] at hcell
      rw [if_neg]
      · exact hcell
      · rintro ⟨rfl, rfl⟩
        apply hlast
        unfold index
        dsimp only
        omega

/-- The column of the cursor. -/
theorem HasLine.col_eq (h : HasLine blank start text t) :
    t.col.val = text.length % cols := by
  have hcursor := h.cursor
  unfold index at hcursor
  have hmod := congrArg (· % cols) hcursor
  rw [Nat.mul_add_mod', Nat.mul_add_mod', Nat.mod_eq_of_lt t.col.isLt] at hmod
  exact hmod

end Next

-- ================================================================= a new line

section Ahead

variable {t : Terminal rows cols α} {blank : α}

theorem ahead_clear (hrows : 0 < rows) (hcols : 0 < cols) :
    Ahead blank (clear blank hrows hcols) := fun _ _ _ => rfl

/-- A line may start at the start of a row. -/
theorem Ahead.hasLine (h : Ahead blank t) (hcol : t.col.val = 0) :
    HasLine blank t.row [] t := by
  have hplace : index cols t.row t.col = t.row * cols := by
    unfold index
    omega
  refine ⟨hplace, fun y x hin => ?_⟩
  rw [h y x (by omega)]
  simp

/-- In the next row everything is blank, if it was before. -/
theorem BlankFrom.newline {p : Nat} (h : BlankFrom blank p t)
    (hp : p ≤ (t.row.val + 1) * cols) : Ahead blank (t.newline blank) := by
  unfold Terminal.newline
  split
  · next hy =>
      intro y x hin
      apply h y x
      unfold index carriageReturn at hin
      dsimp only at hin
      unfold index
      omega
  · next hy =>
      intro y x hin
      unfold Terminal.scroll carriageReturn
      dsimp only
      rw [dif_neg]
      -- only the last row is behind the cursor
      intro hlt
      have hrows : t.row.val + 1 = rows := by
        have hrow := t.row.isLt
        omega
      have hle : (y.val + 1) * cols ≤ t.row.val * cols :=
        Nat.mul_le_mul_right cols (by omega)
      have hnext : (y.val + 1) * cols = y.val * cols + cols :=
        Nat.succ_mul ..
      have hx := x.isLt
      have hin : t.row.val * cols + 0 ≤ y.val * cols + x.val := hin
      omega

theorem BlankFrom.moveTo {p x : Nat} (h : BlankFrom blank p t)
    (hp : p ≤ t.row.val * cols + x) (hp' : p ≤ (t.row.val + 1) * cols) :
    Ahead blank (t.moveTo blank x) := by
  unfold Terminal.moveTo
  split
  · next hx =>
      intro y x' hin
      exact h y x' (Nat.le_trans hp hin)
  · next hx => exact h.newline hp'

theorem Ahead.newline (h : Ahead blank t) : Ahead blank (t.newline blank) := by
  have hlt := t.col.isLt
  have hnext : (t.row.val + 1) * cols = t.row.val * cols + cols :=
    Nat.succ_mul ..
  refine BlankFrom.newline h ?_
  unfold index
  omega

theorem Ahead.put (h : Ahead blank t) (a : α) :
    Ahead blank (t.put blank a) := by
  have hlt := t.col.isLt
  have hnext : (t.row.val + 1) * cols = t.row.val * cols + cols :=
    Nat.succ_mul ..
  have hwritten : BlankFrom blank (t.row.val * cols + (t.col.val + 1))
      (t.setCell t.row t.col a) := by
    intro y x hin
    unfold setCell
    dsimp only
    rw [if_neg]
    · apply h y x
      unfold index at hin ⊢
      omega
    · rintro ⟨rfl, rfl⟩
      unfold index at hin
      omega
  apply hwritten.moveTo
  · exact Nat.le_refl _
  · show t.row.val * cols + (t.col.val + 1) ≤ (t.row.val + 1) * cols
    omega

theorem Ahead.tab (h : Ahead blank t) {stop : Nat} (hstop : 0 < stop) :
    Ahead blank (t.tab stop blank) := by
  have hlt := t.col.isLt
  have hnext : (t.row.val + 1) * cols = t.row.val * cols + cols :=
    Nat.succ_mul ..
  have hon : t.col.val ≤ (t.col.val / stop + 1) * stop := by
    rw [Nat.mul_comm]
    exact Nat.le_of_lt (Nat.lt_mul_div_succ _ hstop)
  unfold Terminal.tab
  apply BlankFrom.moveTo h
  · exact Nat.add_le_add_left hon _
  · unfold index
    omega

theorem Ahead.backspace (h : Ahead blank t) :
    Ahead blank (t.backspace blank) := by
  unfold Terminal.backspace
  split
  · exact h
  · next hcol =>
      intro y x hin
      unfold setCell
      dsimp only
      split
      · rfl
      · next hother =>
          apply h y x
          rw [← index_inj] at hother
          unfold index setCell at hin
          unfold index at hother ⊢
          dsimp only at hin hother
          omega

/-- Every byte but a carriage return keeps the cursor behind what stands on
the screen. -/
theorem Ahead.feed (h : Ahead blank t) (cellOf : UInt8 → α) {b : UInt8}
    (hb : b ≠ 13) : Ahead blank (t.feed blank cellOf b) := by
  unfold Terminal.feed
  split
  · exact h.newline
  split
  · exact h.tab (by decide)
  split
  · exact h.backspace
  · exact h.put _

end Ahead

end Terminal
