/-
A text terminal: a screen of `rows` by `cols` cells, over any type of
cells, with a cursor that is inside by type.

The operations are those of a plain console. Writing a cell moves the
cursor on, past the last column to the next row and past the last row by
scrolling; the cell to blank with is a parameter of what blanks. What a
write puts down shows on the screen after it, whatever it is
(`put_shows`), so two writes differ as soon as their cells do.

A linear memory lays a screen out row by row (`Laid`), a plane lays it out
in rectangles of one size (`Tiled`).

Renaming the cells (`map`) commutes with all of it: what a byte does to a
screen of cells is what it does to the screen of their names (`map_feed`).
-/
import Mathlib

/-- The state of a terminal. -/
structure Terminal (rows cols : Nat) (α : Type*) where
  cell : Fin rows → Fin cols → α
  row : Fin rows
  col : Fin cols

namespace Terminal

variable {rows cols : Nat} {α : Type*}

-- ========================================================= the operations

/-- Write a cell, wherever the cursor is. -/
def setCell (t : Terminal rows cols α) (y : Fin rows) (x : Fin cols) (a : α) :
    Terminal rows cols α :=
  { t with
    cell := fun y' x' => if y' = y ∧ x' = x then a else t.cell y' x' }

/-- Up by one row, with a blank last row. -/
def scroll (blank : α) (t : Terminal rows cols α) : Terminal rows cols α :=
  { t with
    cell := fun y x =>
      if h : y.val + 1 < rows then t.cell ⟨y.val + 1, h⟩ x else blank }

def carriageReturn (t : Terminal rows cols α) : Terminal rows cols α :=
  { t with col := ⟨0, t.col.pos⟩ }

/-- To the start of the next row. -/
def newline (blank : α) (t : Terminal rows cols α) : Terminal rows cols α :=
  if h : t.row.val + 1 < rows then
    { t.carriageReturn with row := ⟨t.row.val + 1, h⟩ }
  else t.carriageReturn.scroll blank

/-- To column `x`, or to the next row where there is no such column. -/
def moveTo (blank : α) (x : Nat) (t : Terminal rows cols α) :
    Terminal rows cols α :=
  if h : x < cols then { t with col := ⟨x, h⟩ } else t.newline blank

/-- Write a cell at the cursor and move on. -/
def put (blank a : α) (t : Terminal rows cols α) : Terminal rows cols α :=
  (t.setCell t.row t.col a).moveTo blank (t.col.val + 1)

/-- To the next tab stop. -/
def tab (stop : Nat) (blank : α) (t : Terminal rows cols α) :
    Terminal rows cols α :=
  t.moveTo blank ((t.col.val / stop + 1) * stop)

/-- Back by one cell of the row, which is blanked. -/
def backspace (blank : α) (t : Terminal rows cols α) : Terminal rows cols α :=
  if t.col.val = 0 then t
  else
    let x : Fin cols := ⟨t.col.val - 1, by omega⟩
    { t.setCell t.row x blank with col := x }

/-- One byte: a control character, or a cell to write. -/
def feed (blank : α) (cellOf : UInt8 → α) (t : Terminal rows cols α)
    (b : UInt8) : Terminal rows cols α :=
  if b = 10 then t.newline blank
  else if b = 13 then t.carriageReturn
  else if b = 9 then t.tab 4 blank
  else if b = 8 then t.backspace blank
  else t.put blank (cellOf b)

/-- The blank screen, the cursor in its first cell. -/
def clear (blank : α) (hrows : 0 < rows) (hcols : 0 < cols) :
    Terminal rows cols α where
  cell := fun _ _ => blank
  row := ⟨0, hrows⟩
  col := ⟨0, hcols⟩

theorem moveTo_self (blank : α) (t : Terminal rows cols α) :
    t.moveTo blank t.col = t := by
  unfold moveTo
  rw [dif_pos t.col.isLt]

-- ====================================================== renaming the cells

section Map

variable {β : Type*} (f : α → β)

def map (t : Terminal rows cols α) : Terminal rows cols β where
  cell := fun y x => f (t.cell y x)
  row := t.row
  col := t.col

variable (t : Terminal rows cols α) (blank : α)

theorem map_setCell (y : Fin rows) (x : Fin cols) (a : α) :
    (t.setCell y x a).map f = (t.map f).setCell y x (f a) := by
  simp only [map, setCell, apply_ite f]

theorem map_scroll : (t.scroll blank).map f = (t.map f).scroll (f blank) := by
  simp only [map, scroll, apply_dite f]

theorem map_newline :
    (t.newline blank).map f = (t.map f).newline (f blank) := by
  unfold newline
  by_cases h : t.row.val + 1 < rows
  · rw [dif_pos h, dif_pos (by exact h)]
    rfl
  · rw [dif_neg h, dif_neg (by exact h), map_scroll]
    rfl

theorem map_moveTo (x : Nat) :
    (t.moveTo blank x).map f = (t.map f).moveTo (f blank) x := by
  unfold moveTo
  by_cases h : x < cols
  · rw [dif_pos h, dif_pos h]
    rfl
  · rw [dif_neg h, dif_neg h, map_newline]

theorem map_put (a : α) :
    (t.put blank a).map f = (t.map f).put (f blank) (f a) := by
  unfold put
  rw [map_moveTo, map_setCell]
  rfl

theorem map_backspace :
    (t.backspace blank).map f = (t.map f).backspace (f blank) := by
  unfold backspace
  by_cases h : t.col.val = 0
  · rw [if_pos h, if_pos (by exact h)]
  · let x : Fin cols := ⟨t.col.val - 1, by omega⟩
    rw [if_neg h, if_neg (by exact h)]
    show { (t.setCell t.row x blank).map f with col := x } = _
    rw [map_setCell]
    rfl

/-- Naming the cells after the bytes, or before. -/
theorem map_feed (cellOf : UInt8 → α) (b : UInt8) :
    (t.feed blank cellOf b).map f
      = (t.map f).feed (f blank) (fun b => f (cellOf b)) b := by
  unfold feed
  split
  · exact map_newline f t blank
  split
  · rfl
  split
  · exact map_moveTo f t blank _
  split
  · exact map_backspace f t blank
  · exact map_put f t blank (cellOf b)

end Map

-- ======================================================= what a write shows

@[simp] theorem setCell_self (t : Terminal rows cols α) (y : Fin rows)
    (x : Fin cols) (a : α) : (t.setCell y x a).cell y x = a := by
  simp [setCell]

/-- The cell written last is still on the screen, one row up if the
screen scrolled. -/
theorem put_shows (hrows : 1 < rows) (blank : α)
    (t : Terminal rows cols α) :
    ∃ y x, ∀ b, (t.put blank b).cell y x = b := by
  by_cases hx : t.col.val + 1 < cols
  · refine ⟨t.row, t.col, fun b => ?_⟩
    unfold put moveTo
    rw [dif_pos hx]
    exact setCell_self t t.row t.col b
  · by_cases hy : t.row.val + 1 < rows
    · refine ⟨t.row, t.col, fun b => ?_⟩
      unfold put moveTo newline
      rw [dif_neg hx, dif_pos (by exact hy)]
      exact setCell_self t t.row t.col b
    · refine ⟨⟨t.row.val - 1, by omega⟩, t.col, fun b => ?_⟩
      have hrow : t.row.val - 1 + 1 = t.row.val := by omega
      unfold put moveTo newline
      rw [dif_neg hx, dif_neg (by exact hy)]
      unfold scroll carriageReturn
      dsimp only
      rw [dif_pos (by omega)]
      simp only [hrow]
      exact setCell_self t t.row t.col b

-- ============================================================== the cursor

/-- The cursors of the two terminals are at the same place. -/
def SamePos (t u : Terminal rows cols α) : Prop :=
  t.row = u.row ∧ t.col = u.col

section SamePos

variable {t u : Terminal rows cols α}

theorem SamePos.newline (h : SamePos t u) (a b : α) :
    SamePos (t.newline a) (u.newline b) := by
  unfold Terminal.newline
  rw [h.1]
  split
  · exact ⟨rfl, rfl⟩
  · exact ⟨h.1, rfl⟩

theorem SamePos.moveTo (h : SamePos t u) (a b : α) (x : Nat) :
    SamePos (t.moveTo a x) (u.moveTo b x) := by
  unfold Terminal.moveTo
  split
  · exact ⟨h.1, rfl⟩
  · exact h.newline a b

theorem SamePos.put (h : SamePos t u) (a b v w : α) :
    SamePos (t.put a v) (u.put b w) := by
  have hset : SamePos (t.setCell t.row t.col v) (u.setCell u.row u.col w) := h
  unfold Terminal.put
  rw [h.2]
  exact SamePos.moveTo (h.2 ▸ hset) a b _

theorem SamePos.tab (h : SamePos t u) (stop : Nat) (a b : α) :
    SamePos (t.tab stop a) (u.tab stop b) := by
  unfold Terminal.tab
  rw [h.2]
  exact h.moveTo a b _

theorem SamePos.backspace (h : SamePos t u) (a b : α) :
    SamePos (t.backspace a) (u.backspace b) := by
  have hcol : t.col.val = u.col.val := congrArg Fin.val h.2
  unfold Terminal.backspace
  by_cases hzero : t.col.val = 0
  · rw [if_pos hzero, if_pos (hcol ▸ hzero)]
    exact h
  · rw [if_neg hzero, if_neg (hcol ▸ hzero)]
    exact ⟨h.1, Fin.ext (congrArg (· - 1) hcol)⟩

end SamePos

-- ============================================================== the layout

/-- The place of a cell in memory. -/
def index (cols y x : Nat) : Nat := y * cols + x

theorem index_lt {y : Fin rows} {x : Fin cols} :
    index cols y x < rows * cols := by
  have hy : (y.val + 1) * cols ≤ rows * cols :=
    Nat.mul_le_mul_right cols y.isLt
  rw [Nat.succ_mul] at hy
  have hx := x.isLt
  unfold index
  omega

theorem index_inj {y y' : Fin rows} {x x' : Fin cols} :
    index cols y x = index cols y' x' ↔ y = y' ∧ x = x' := by
  have hdiv : ∀ (y : Fin rows) (x : Fin cols),
      index cols y x / cols = y.val ∧ index cols y x % cols = x.val := by
    intro y x
    have hpos := x.pos
    unfold index
    rw [Nat.mul_comm, Nat.mul_add_div hpos, Nat.div_eq_of_lt x.isLt,
      Nat.mul_add_mod, Nat.mod_eq_of_lt x.isLt]
    exact ⟨rfl, rfl⟩
  constructor
  · intro h
    have h₁ := hdiv y x
    rw [h] at h₁
    have h₂ := hdiv y' x'
    exact ⟨Fin.ext (h₁.1.symm.trans h₂.1), Fin.ext (h₁.2.symm.trans h₂.2)⟩
  · rintro ⟨rfl, rfl⟩
    rfl

/-- The memory holds the screen, row by row. -/
def Laid (mem : Nat → α) (t : Terminal rows cols α) : Prop :=
  ∀ (y : Fin rows) (x : Fin cols), mem (index cols y x) = t.cell y x

theorem Laid.set {mem : Nat → α} {t : Terminal rows cols α} (h : Laid mem t)
    (y : Fin rows) (x : Fin cols) (a : α) :
    Laid (Function.update mem (index cols y x) a) (t.setCell y x a) := by
  intro y' x'
  unfold setCell
  dsimp only
  by_cases hcell : y' = y ∧ x' = x
  · rw [if_pos hcell, hcell.1, hcell.2, Function.update_self]
  · rw [if_neg hcell, Function.update_of_ne (mt index_inj.mp hcell)]
    exact h y' x'

/-- Rows moved down in memory by one, and a blank last row. -/
theorem Laid.scroll {mem mem' : Nat → α} {t : Terminal rows cols α}
    (h : Laid mem t) (blank : α)
    (hmoved : ∀ (y : Fin rows) (x : Fin cols), y.val + 1 < rows →
      mem' (index cols y x) = mem (index cols (y.val + 1) x))
    (hblank : ∀ (y : Fin rows) (x : Fin cols), ¬ y.val + 1 < rows →
      mem' (index cols y x) = blank) :
    Laid mem' (t.scroll blank) := by
  intro y x
  unfold Terminal.scroll
  dsimp only
  split
  · next hy =>
      rw [hmoved y x hy]
      exact h ⟨y.val + 1, hy⟩ x
  · next hy => exact hblank y x hy

-- ================================================================= a plane

/-- A grid of rectangles of `cw` by `ch`, with its corner at `(ox, oy)`. -/
structure Grid where
  ox : Int
  oy : Int
  cw : Int
  ch : Int

/-- The point is in the rectangle of the cell. -/
structure Grid.InCell (g : Grid) (y x : Nat) (col row : Int) : Prop where
  left : g.ox + x * g.cw ≤ col
  right : col < g.ox + x * g.cw + g.cw
  top : g.oy + y * g.ch ≤ row
  bottom : row < g.oy + y * g.ch + g.ch

theorem strip_succ (k : Nat) (w : Int) :
    ((k + 1 : Nat) : Int) * w = k * w + w := by
  push_cast
  rw [Int.add_mul, Int.one_mul]

/-- The number of the strip of width `w` that a point is in. -/
theorem strip_eq {w d : Int} {k : Nat} (hlow : k * w ≤ d)
    (hhigh : d < k * w + w) : d / w = k := by
  have hw : 0 < w := by omega
  have hrest : d = (d - k * w) + k * w := by omega
  rw [hrest, Int.add_mul_ediv_right _ _ (by omega),
    Int.ediv_eq_zero_of_lt (by omega) (by omega), Int.zero_add]

/-- Two cells have no point in common. -/
theorem Grid.InCell.unique {g : Grid} {y x y' x' : Nat} {col row : Int}
    (h : g.InCell y x col row) (h' : g.InCell y' x' col row) :
    y = y' ∧ x = x' := by
  obtain ⟨hl, hr, ht, hb⟩ := h
  obtain ⟨hl', hr', ht', hb'⟩ := h'
  have hx := strip_eq (d := col - g.ox) (w := g.cw) (k := x) (by omega)
    (by omega)
  have hx' := strip_eq (d := col - g.ox) (w := g.cw) (k := x') (by omega)
    (by omega)
  have hy := strip_eq (d := row - g.oy) (w := g.ch) (k := y) (by omega)
    (by omega)
  have hy' := strip_eq (d := row - g.oy) (w := g.ch) (k := y') (by omega)
    (by omega)
  omega

/-- The point above, in the cell above. -/
theorem Grid.inCell_succ {g : Grid} {y x : Nat} {col row : Int} :
    g.InCell (y + 1) x col (row + g.ch) ↔ g.InCell y x col row := by
  have hnext := strip_succ y g.ch
  constructor
  · rintro ⟨hl, hr, ht, hb⟩
    exact ⟨hl, hr, by omega, by omega⟩
  · rintro ⟨hl, hr, ht, hb⟩
    exact ⟨hl, hr, by omega, by omega⟩

/-- Every point of a cell has what the screen has in the cell. -/
def Tiled (g : Grid) (plane : Int → Int → α) (t : Terminal rows cols α) :
    Prop :=
  ∀ (y : Fin rows) (x : Fin cols) (col row : Int), g.InCell y x col row →
    plane col row = t.cell y x

section Tiled

variable {g : Grid} {plane plane' : Int → Int → α} {t : Terminal rows cols α}

/-- One rectangle written. -/
theorem Tiled.set (h : Tiled g plane t) (y : Fin rows) (x : Fin cols) {a : α}
    (hnew : ∀ col row, g.InCell y x col row → plane' col row = a)
    (hold : ∀ col row, ¬ g.InCell y x col row →
      plane' col row = plane col row) :
    Tiled g plane' (t.setCell y x a) := by
  intro y' x' col row hin
  unfold setCell
  dsimp only
  by_cases hcell : y' = y ∧ x' = x
  · rw [if_pos hcell]
    rw [hcell.1, hcell.2] at hin
    exact hnew col row hin
  · rw [if_neg hcell, hold col row, h y' x' col row hin]
    intro hin'
    obtain ⟨hy, hx⟩ := hin.unique hin'
    exact hcell ⟨Fin.ext hy, Fin.ext hx⟩

/-- Everything moved up by the height of a cell, and a blank last row. -/
theorem Tiled.scroll (h : Tiled g plane t) (blank : α)
    (hmoved : ∀ (y : Fin rows) (x : Fin cols) (col row : Int),
      g.InCell y x col row → y.val + 1 < rows →
        plane' col row = plane col (row + g.ch))
    (hblank : ∀ (y : Fin rows) (x : Fin cols) (col row : Int),
      g.InCell y x col row → ¬ y.val + 1 < rows →
        plane' col row = blank) :
    Tiled g plane' (t.scroll blank) := by
  intro y x col row hin
  unfold Terminal.scroll
  dsimp only
  split
  · next hy =>
      rw [hmoved y x col row hin hy]
      exact h ⟨y.val + 1, hy⟩ x col _ (Grid.inCell_succ.mpr hin)
  · next hy => exact hblank y x col row hin hy

end Tiled

end Terminal
