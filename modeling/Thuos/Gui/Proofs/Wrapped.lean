/-
A block of text is its rows.

`text_block` places one character after the other. What it draws is the rows
that the text breaks into, each as `lfb_text` draws it, one below the other,
and it returns where the next row would be (`text_block_wraps`). The rows
stay within the width of the block, so nothing beside it changes.

The induction is on the text that is still to be placed, behind the part of
a row that has been drawn (`blockLoop_rows`).
-/
import Thuos.Gui.Paint
import Thuos.Gui.TextBlock
import Thuos.Lib.Wrap
import Thuos.Video.Proofs.Shapes

namespace Thuos.Gui

open Video Loop Wrap

-- ================================================================= the rows

section Rows

variable (glyph : UInt8 → Nat → UInt8) (fg : UInt32) (scale : Int)

/-- The loop of `lfb_text`. -/
def drawChars (s : Lfb) (x y : Int) (cs : List UInt8) : Lfb :=
  (cs.foldl (fun (r : Lfb × Int) c =>
    (lfbChar glyph r.1 r.2 y c.toInt8 fg (-1) scale, r.2 + 8 * scale))
    (s, x)).1

/-- A row as a string. -/
def rowText (row : List UInt8) : CStr := ⟨row.filter (· ≠ 0), by simp⟩

/-- Rows of text, one below the other. -/
def drawRows (x : Int) : Lfb → Int → List (List UInt8) → Lfb
  | s, _, [] => s
  | s, y, row :: rows =>
      drawRows x (lfbText glyph s x y (rowText row) fg (-1) scale)
        (y + 16 * scale) rows

theorem drawChars_nil (s : Lfb) (x y : Int) :
    drawChars glyph fg scale s x y [] = s := rfl

theorem drawChars_cons (s : Lfb) (x y : Int) (c : UInt8) (cs : List UInt8) :
    drawChars glyph fg scale s x y (c :: cs)
      = drawChars glyph fg scale
          (lfbChar glyph s x y c.toInt8 fg (-1) scale) (x + 8 * scale) y cs :=
  rfl

theorem drawRows_cons (s : Lfb) (x y : Int) (row : List UInt8)
    (rows : List (List UInt8)) :
    drawRows glyph fg scale x s y (row :: rows)
      = drawRows glyph fg scale x
          (lfbText glyph s x y (rowText row) fg (-1) scale) (y + 16 * scale)
          rows := rfl

theorem drawChars_text (s : Lfb) (x y : Int) {row : List UInt8}
    (h : 0 ∉ row) :
    drawChars glyph fg scale s x y row
      = lfbText glyph s x y (rowText row) fg (-1) scale := by
  have hkeep : (rowText row).chars = row := by
    refine List.filter_eq_self.mpr fun a ha => decide_eq_true ?_
    rintro rfl
    exact h ha
  unfold lfbText
  rw [hkeep]
  rfl

end Rows

-- ================================================================= the loop

section Loop

variable {glyph : UInt8 → Nat → UInt8} {fg : UInt32} {scale : Int}

theorem blockChar_newline (x cols cw lh : Int) (b : Block) :
    blockChar glyph x cols cw lh fg scale b 10
      = ⟨b.lfb, b.y + lh, x, 0⟩ := rfl

theorem blockChar_full {x cols cw lh : Int} {b : Block} {c : UInt8}
    (hc : c ≠ 10) (h : b.col ≥ cols) :
    blockChar glyph x cols cw lh fg scale b c
      = ⟨lfbChar glyph b.lfb x (b.y + lh) c.toInt8 fg (-1) scale, b.y + lh,
          x + cw, 1⟩ := by
  unfold blockChar
  rw [if_neg hc, if_pos h]
  rfl

theorem blockChar_room {x cols cw lh : Int} {b : Block} {c : UInt8}
    (hc : c ≠ 10) (h : ¬ b.col ≥ cols) :
    blockChar glyph x cols cw lh fg scale b c
      = ⟨lfbChar glyph b.lfb b.cx b.y c.toInt8 fg (-1) scale, b.y, b.cx + cw,
          b.col + 1⟩ := by
  unfold blockChar
  rw [if_neg hc, if_neg h]

/-- The text behind `pre`, which stands in the row already. -/
theorem blockLoop_rows {x : Int} {cols : Nat} (hcols : 0 < cols)
    (text : List UInt8) (htext : 0 ∉ text) (pre : List UInt8)
    (hpre : 10 ∉ pre) (hlen : pre.length ≤ cols) (s : Lfb) (y cx col : Int)
    (hcx : cx = x + pre.length * (8 * scale)) (hcol : col = pre.length) :
    ∃ post rows, Wraps cols 10 (pre ++ text) ((pre ++ post) :: rows)
      ∧ (text.foldl (blockChar glyph x cols (8 * scale) (16 * scale) fg scale)
          ⟨s, y, cx, col⟩).lfb
        = drawRows glyph fg scale x (drawChars glyph fg scale s cx y post)
            (y + 16 * scale) rows
      ∧ (text.foldl (blockChar glyph x cols (8 * scale) (16 * scale) fg scale)
          ⟨s, y, cx, col⟩).y
        = y + 16 * scale * rows.length := by
  induction text generalizing pre s y cx col with
  | nil =>
      refine ⟨[], [], ?_, rfl, by simp⟩
      rw [List.append_nil]
      exact .last hpre hlen
  | cons c text ih =>
      have htail : 0 ∉ text := fun h => htext (List.mem_cons_of_mem c h)
      rw [List.foldl_cons]
      by_cases hnl : c = 10
      · -- the row ends here
        subst hnl
        rw [blockChar_newline]
        dsimp only
        obtain ⟨post, rows, hwraps, hlfb, hy⟩ :=
          ih htail [] (by simp) (Nat.zero_le _) s (y + 16 * scale) x 0
            (by simp) rfl
        rw [List.nil_append, List.nil_append] at hwraps
        have hpost : 0 ∉ post := fun h =>
          htail (hwraps.subset List.mem_cons_self h)
        refine ⟨[], post :: rows, ?_, ?_, ?_⟩
        · rw [List.append_nil]
          exact .hard hpre hlen hwraps
        · refine hlfb.trans ?_
          rw [drawChars_nil, drawRows_cons, drawChars_text _ _ _ _ _ _ hpost]
        · refine hy.trans ?_
          rw [List.length_cons]
          push_cast
          ring
      · by_cases hfull : pre.length = cols
        · -- the row is full, and `c` begins the next one
          rw [blockChar_full hnl (by dsimp only; omega)]
          dsimp only
          obtain ⟨post, rows, hwraps, hlfb, hy⟩ :=
            ih htail [c] (by simp [Ne.symm hnl]) hcols
              (lfbChar glyph s x (y + 16 * scale) c.toInt8 fg (-1) scale)
              (y + 16 * scale) (x + 8 * scale) 1 (by simp) rfl
          have hrow : 0 ∉ c :: post := by
            intro h
            exact htext (hwraps.subset List.mem_cons_self h)
          refine ⟨[], (c :: post) :: rows, ?_, ?_, ?_⟩
          · rw [List.append_nil]
            exact .soft hpre hfull hnl hwraps
          · refine hlfb.trans ?_
            rw [← drawChars_cons, drawChars_nil, drawRows_cons,
              drawChars_text _ _ _ _ _ _ hrow]
          · refine hy.trans ?_
            rw [List.length_cons]
            push_cast
            ring
        · rw [blockChar_room hnl (by dsimp only; omega)]
          dsimp only
          obtain ⟨post, rows, hwraps, hlfb, hy⟩ :=
            ih htail (pre ++ [c]) (by simp [hpre, Ne.symm hnl])
              (by rw [List.length_append, List.length_singleton]; omega)
              (lfbChar glyph s cx y c.toInt8 fg (-1) scale) y (cx + 8 * scale)
              (col + 1)
              (by
                rw [hcx, List.length_append, List.length_singleton]
                push_cast
                ring)
              (by
                rw [hcol, List.length_append, List.length_singleton]
                push_cast
                rfl)
          rw [List.append_assoc, List.append_assoc] at hwraps
          refine ⟨c :: post, rows, hwraps, ?_, ?_⟩
          · rw [drawChars_cons]
            exact hlfb
          · exact hy

end Loop

-- ================================================================ the region

section Region

variable {glyph : UInt8 → Nat → UInt8} {fg : UInt32} {scale : Int}

/-- A character stays in its cell. -/
theorem lfbChar_within (s : Lfb) (x y : Int) (ch : Int8) (bg : Int)
    (hscale : 0 ≤ scale) :
    Within (Seen s x y (8 * scale) (16 * scale)) s
      (lfbChar glyph s x y ch fg bg scale) := by
  have hsquare : ∀ r c : Nat, r < 16 → c < 8 → ∀ rgb u,
      Within (Seen s x y (8 * scale) (16 * scale)) s u →
      Within (Seen s x y (8 * scale) (16 * scale)) u
        (lfbFill u (x + c * scale) (y + r * scale) scale scale rgb) := by
    intro r c hr hc rgb u hu
    refine (lfbFill_within ..).mono fun col row hin => ?_
    obtain ⟨⟨hl, hr', ht, hb⟩, hinside⟩ := (hu.seen ..).mp hin
    have hcol : (c : Int) * scale + scale ≤ 8 * scale := by nlinarith
    have hrow : (r : Int) * scale + scale ≤ 16 * scale := by nlinarith
    have hc0 : 0 ≤ (c : Int) * scale := Int.mul_nonneg (by omega) hscale
    have hr0 : 0 ≤ (r : Int) * scale := Int.mul_nonneg (by omega) hscale
    exact ⟨⟨by omega, by omega, by omega, by omega⟩, hinside⟩
  unfold lfbChar
  refine upTo_within fun r hr t ht => ?_
  refine upTo_inv (fun _ u => Within _ t u) (Within.refl _ t)
    fun c hc u hu => hu.trans ?_
  split
  · exact hsquare r c hr hc fg u (ht.trans hu)
  · split
    · exact hsquare r c hr hc _ u (ht.trans hu)
    · exact Within.refl _ u

theorem drawChars_within (hscale : 0 ≤ scale) (s : Lfb) (x y : Int)
    (cs : List UInt8) :
    Within (Seen s x y (8 * scale * cs.length) (16 * scale)) s
      (drawChars glyph fg scale s x y cs) := by
  induction cs generalizing s x with
  | nil => exact Within.refl _ s
  | cons c cs ih =>
      rw [drawChars_cons]
      have hlen : (8 * scale * (c :: cs).length : Int)
          = 8 * scale + 8 * scale * cs.length := by
        rw [List.length_cons]
        push_cast
        ring
      have hrest : 0 ≤ 8 * scale * (cs.length : Int) :=
        Int.mul_nonneg (by omega) (by omega)
      have hchar := @lfbChar_within glyph fg scale s x y c.toInt8 (-1) hscale
      refine (hchar.mono fun col row hin => ?_).trans
        ((ih _ (x + 8 * scale)).mono fun col row hin => ?_)
      · obtain ⟨⟨hl, hr, ht, hb⟩, hinside⟩ := hin
        exact ⟨⟨hl, by omega, ht, hb⟩, hinside⟩
      · obtain ⟨⟨hl, hr, ht, hb⟩, hinside⟩ := (hchar.seen ..).mp hin
        exact ⟨⟨by omega, by omega, ht, hb⟩, hinside⟩

/-- Rows stay in the rectangle that the longest of them needs. -/
theorem drawRows_within (hscale : 0 ≤ scale) {cols : Nat} (x : Int)
    (rows : List (List UInt8)) (hrows : ∀ row ∈ rows, 0 ∉ row)
    (hlen : ∀ row ∈ rows, row.length ≤ cols) (s : Lfb) (y : Int) :
    Within (Seen s x y (8 * scale * cols) (16 * scale * rows.length)) s
      (drawRows glyph fg scale x s y rows) := by
  induction rows generalizing s y with
  | nil => exact Within.refl _ s
  | cons row rows ih =>
      have hwide : 8 * scale * (row.length : Int) ≤ 8 * scale * cols := by
        have hcols := hlen row List.mem_cons_self
        exact Int.mul_le_mul_of_nonneg_left (by omega) (by omega)
      have hhigh : (16 * scale * (row :: rows).length : Int)
          = 16 * scale + 16 * scale * rows.length := by
        rw [List.length_cons]
        push_cast
        ring
      have hrest : 0 ≤ 16 * scale * (rows.length : Int) :=
        Int.mul_nonneg (by omega) (by omega)
      have hfirst := @drawChars_within glyph fg scale hscale s x y row
      rw [drawChars_text _ _ _ _ _ _ (hrows row List.mem_cons_self)] at hfirst
      refine (hfirst.mono fun col r hin => ?_).trans
        ((ih (fun r hr => hrows r (List.mem_cons_of_mem _ hr))
          (fun r hr => hlen r (List.mem_cons_of_mem _ hr)) _
          (y + 16 * scale)).mono fun col r hin => ?_)
      · obtain ⟨⟨hl, hr, ht, hb⟩, hinside⟩ := hin
        exact ⟨⟨hl, by omega, ht, by omega⟩, hinside⟩
      · obtain ⟨⟨hl, hr, ht, hb⟩, hinside⟩ := (hfirst.seen ..).mp hin
        exact ⟨⟨hl, hr, by omega, by omega⟩, hinside⟩

end Region

-- =============================================================== the result

/-- In a block wide enough for a character, the text is drawn as the rows it
breaks into, and nothing changes but in the rectangle of these rows. -/
theorem text_block_wraps (glyph : UInt8 → Nat → UInt8) (s : Lfb)
    (x y : Int) {w scale : Int} (str : CStr) (fg : UInt32)
    (hscale : 0 < scale) (hw : 8 * scale ≤ w) :
    ∃ rows, Wraps (w / (8 * scale)).toNat 10 str.chars rows
      ∧ textBlock glyph s x y w str fg scale
        = (drawRows glyph fg scale x s y rows, y + 16 * scale * rows.length)
      ∧ Within (Seen s x y w (16 * scale * rows.length)) s
        (textBlock glyph s x y w str fg scale).1 := by
  have hcell : 0 < 8 * scale := by omega
  have hdiv : w.tdiv (8 * scale) = w / (8 * scale) :=
    Int.tdiv_eq_ediv_of_nonneg (by omega)
  have hpos : 1 ≤ w / (8 * scale) :=
    Int.le_ediv_of_mul_le hcell (by omega)
  have hcols : ((w / (8 * scale)).toNat : Int) = w / (8 * scale) :=
    Int.toNat_of_nonneg (by omega)
  have hwide : 8 * scale * (w / (8 * scale)) ≤ w :=
    Int.mul_ediv_self_le (by omega)
  obtain ⟨row, rows, hwraps, hlfb, hy⟩ :=
    @blockLoop_rows glyph fg scale x (w / (8 * scale)).toNat (by omega)
      str.chars str.noNul [] (by simp) (Nat.zero_le _) s y x 0 (by simp) rfl
  rw [List.nil_append, List.nil_append] at hwraps
  have hnul : ∀ r ∈ row :: rows, 0 ∉ r := fun r hr h =>
    str.noNul (hwraps.subset hr h)
  have hblock : textBlock glyph s x y w str fg scale
      = (drawRows glyph fg scale x s y (row :: rows),
          y + 16 * scale * (row :: rows).length) := by
    unfold textBlock
    dsimp only
    rw [hdiv, ← hcols]
    refine Prod.ext ?_ ?_
    · refine hlfb.trans ?_
      rw [drawRows_cons,
        drawChars_text _ _ _ _ _ _ (hnul row List.mem_cons_self)]
    · refine (congrArg (· + 16 * scale) hy).trans ?_
      rw [List.length_cons]
      push_cast
      ring
  refine ⟨row :: rows, hwraps, hblock, ?_⟩
  rw [hblock]
  refine (drawRows_within (by omega) x (row :: rows) hnul hwraps.length_le s
    y).mono fun col r hin => ?_
  obtain ⟨⟨hl, hr, ht, hb⟩, hinside⟩ := hin
  rw [hcols] at hr
  exact ⟨⟨hl, by omega, ht, hb⟩, hinside⟩

/-- A word and a line break in a narrow block. -/
theorem text_block_wraps_two :
    ∃ rows, Wraps (32 / (8 * 2) : Int).toNat 10 (CStr.ofString "abc\nd").chars
        rows
      ∧ textBlock (fun _ _ => 0xFF) ⟨0, 64, 64, 64, true, fun _ => 0, []⟩ 0 0
          32 (CStr.ofString "abc\nd") TXT_HI 2
        = (drawRows (fun _ _ => 0xFF) TXT_HI 2 0
            ⟨0, 64, 64, 64, true, fun _ => 0, []⟩ 0 rows,
          (0 + 16 * 2 * rows.length : Int))
      ∧ Within (Seen ⟨0, 64, 64, 64, true, fun _ => 0, []⟩ 0 0 32
          (16 * 2 * rows.length)) ⟨0, 64, 64, 64, true, fun _ => 0, []⟩
        (textBlock (fun _ _ => 0xFF) ⟨0, 64, 64, 64, true, fun _ => 0, []⟩ 0 0
          32 (CStr.ofString "abc\nd") TXT_HI 2).1 :=
  @text_block_wraps _ _ 0 0 32 2 _ TXT_HI (by decide) (by decide)

end Thuos.Gui
