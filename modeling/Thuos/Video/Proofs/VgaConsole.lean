/-
The VGA console is a terminal whose cells are packed by `vga_entry`.

`Console` is the reference: a `Terminal` of 25 by 80 cells and the colour
in force, over any packing of a byte and a colour into a cell. The driver
follows it with its own packing, whatever is written (`Shows.step`): the
loops of `vga_clear` and `vga_scroll` fill and move rows
(`vgaClear_mem`, `vgaScroll_mem`), and the checks at the end of
`vga_putc` are `Terminal.moveTo` and `Terminal.newline` (`settle_moveTo`,
`settle_newline`).

What is left is to compare two packings, a question of one cell. The
driver extends the sign of the character, so that a byte from 0x80 on
sets all bits of its high half, and agrees with the reference exactly
where that is the colour already (`vgaEntry_eq_iff`).
-/
import Thuos.Lib.Terminal
import Thuos.Video.Vga

namespace Thuos.Video

open Loop Machine Terminal

-- ========================================================== what is stated

/-- The reference: a screen of words and the colour in force. -/
structure Console where
  screen : Terminal 25 80 UInt16
  colour : UInt8

/-- How a byte and a colour make a cell. -/
abbrev Packing := UInt8 → UInt8 → UInt16

/-- The byte in the low half, the colour in the high half. -/
def cellWord : Packing := fun b colour =>
  UInt16.ofNat (b.toNat + 256 * colour.toNat)

namespace Console

/-- A blank screen, light grey on black. -/
def init (pack : Packing) : Console where
  screen :=
    { cell := fun _ _ => pack 0x20 0x07
      row := ⟨0, by decide⟩
      col := ⟨0, by decide⟩ }
  colour := 0x07

/-- One byte, or a change of the colour. -/
def step (pack : Packing) (c : Console) : VgaOp → Console
  | .putc b =>
      let blank := pack 0x20 c.colour
      if b = 10 then { c with screen := c.screen.newline blank }
      else if b = 13 then { c with screen := c.screen.carriageReturn }
      else if b = 9 then { c with screen := c.screen.tab 4 blank }
      else if b = 8 then { c with screen := c.screen.backspace blank }
      else { c with screen := c.screen.put blank (pack b c.colour) }
  | .setColor fg bg => { c with colour := fg ||| bg <<< 4 }

end Console

/-- The position in the cursor registers. -/
def cursorPos (s : Vga) : Nat :=
  (s.crtc.reg 0x0E).toNat * 256 + (s.crtc.reg 0x0F).toNat

/-- The step packs its cell as the reference does: a byte below 0x80, or
all bits of the colour set. -/
def Plain (s : Vga) : VgaOp → Prop
  | .putc b => b < 0x80 ∨ s.vgaColor = 0xFF
  | .setColor _ _ => True

-- ============================================================= the packings

/-- The packing of the driver, of a byte passed as a `char`. -/
def vgaPacking : Packing := fun b colour => vgaEntry b.toInt8 colour

/-- The sign of the character, extended. -/
theorem char_toNat (b : UInt8) :
    b.toInt8.toInt16.toUInt16.toNat
      = if b < 0x80 then b.toNat else 256 * 255 + b.toNat := by
  have hall : ∀ n : Fin 256,
      (UInt8.ofNat n).toInt8.toInt16.toUInt16.toNat
        = if UInt8.ofNat n < 0x80 then (UInt8.ofNat n).toNat
          else 256 * 255 + (UInt8.ofNat n).toNat := by decide +kernel
  have h := hall ⟨b.toNat, b.toNat_lt⟩
  rw [UInt8.ofNat_toNat] at h
  exact h

/-- A byte that is set throughout stays so whatever is added to it. -/
theorem or_255 (color : UInt8) : 255 ||| color.toNat = 255 := by
  have hall : ∀ n : Fin 256, 255 ||| n.val = 255 := by decide +kernel
  exact hall ⟨color.toNat, color.toNat_lt⟩

/-- The word that `vga_entry` makes: beyond 7 bits the sign of the character
covers the colour. -/
theorem vgaPacking_toNat (b color : UInt8) :
    (vgaPacking b color).toNat
      = if b < 0x80 then b.toNat + 256 * color.toNat
        else b.toNat + 256 * 255 := by
  have hb := b.toNat_lt
  have hcolor := color.toNat_lt
  have hhigh : (color.toUInt16 <<< 8).toNat = color.toNat <<< 8 := by
    rw [UInt16.toNat_shiftLeft, UInt8.toNat_toUInt16]
    show (color.toNat <<< 8) % 2 ^ 16 = _
    rw [Nat.shiftLeft_eq]
    omega
  -- a high half and a low half, joined or added
  have hjoin : ∀ a, a <<< 8 ||| b.toNat = b.toNat + 256 * a := by
    intro a
    rw [← Nat.shiftLeft_add_eq_or_of_lt (by omega), Nat.shiftLeft_eq]
    omega
  unfold vgaPacking vgaEntry
  rw [UInt16.toNat_or, hhigh, char_toNat]
  split
  · rw [Nat.lor_comm, hjoin]
  · calc (256 * 255 + b.toNat) ||| color.toNat <<< 8
        = (255 <<< 8 ||| b.toNat) ||| color.toNat <<< 8 := by
          rw [hjoin, Nat.add_comm]
      _ = (255 ||| color.toNat) <<< 8 ||| b.toNat := by
          rw [Nat.or_assoc, Nat.or_comm b.toNat, ← Nat.or_assoc,
            Nat.shiftLeft_or_distrib]
      _ = b.toNat + 256 * 255 := by rw [or_255, hjoin]

/-- The word that is meant: the character below, and the colour above. -/
theorem cellWord_toNat (b color : UInt8) :
    (cellWord b color).toNat = b.toNat + 256 * color.toNat := by
  have hb := b.toNat_lt
  have hcolor := color.toNat_lt
  unfold cellWord
  rw [UInt16.toNat_ofNat_of_lt']
  show _ < 2 ^ 16
  omega

/-- The two words are one for a 7-bit character, or where the colour has all
its bits set. -/
theorem vgaPacking_eq_iff (b color : UInt8) :
    vgaPacking b color = cellWord b color ↔ b < 0x80 ∨ color = 0xFF := by
  have hb := b.toNat_lt
  have hcolor := color.toNat_lt
  rw [← UInt16.toNat_inj, vgaPacking_toNat, cellWord_toNat]
  split
  · next hlow => simp [hlow]
  · next hlow =>
      have hff : color = 0xFF ↔ color.toNat = 255 := by
        rw [← UInt8.toNat_inj]
        rfl
      rw [or_iff_right hlow, hff]
      omega

-- ============================================================== the driver

section Driver

variable {s : Vga}

/-- The two registers of the cursor hold its place, if that fits into 16
bits. -/
theorem vgaMoveCursor_pos (h : s.vgaRow * VGA_WIDTH + s.vgaCol < 2 ^ 16) :
    cursorPos (vgaMoveCursor s) = s.vgaRow * VGA_WIDTH + s.vgaCol := by
  -- the four port writes, spelled out
  have hhigh : (vgaMoveCursor s).crtc.reg 0x0E
      = ((UInt16.ofNat (s.vgaRow * VGA_WIDTH + s.vgaCol) >>> 8)
        &&& 0xFF).toUInt8 := by
    simp [vgaMoveCursor, outb]
  have hlow : (vgaMoveCursor s).crtc.reg 0x0F
      = (UInt16.ofNat (s.vgaRow * VGA_WIDTH + s.vgaCol)
        &&& 0xFF).toUInt8 := by
    simp [vgaMoveCursor, outb]
  unfold cursorPos
  rw [hhigh, hlow]
  generalize s.vgaRow * VGA_WIDTH + s.vgaCol = pos at *
  have hpos : (UInt16.ofNat pos).toNat = pos := UInt16.toNat_ofNat_of_lt' h
  have hmask : ∀ n, n &&& 255 = n % 256 := fun n =>
    Nat.and_two_pow_sub_one_eq_mod n 8
  have hshift : (UInt16.ofNat pos >>> 8).toNat = pos / 256 := by
    rw [UInt16.toNat_shiftRight, hpos]
    exact Nat.shiftRight_eq_div_pow pos 8
  rw [UInt16.toNat_toUInt8, UInt16.toNat_toUInt8, UInt16.toNat_and,
    UInt16.toNat_and, hpos, hshift]
  show (pos / 256 &&& 255) % 256 * 256 + (pos &&& 255) % 256 = pos
  rw [hmask, hmask]
  omega

/-- The rows that `vga_clear` fills. -/
theorem vgaClear_rows (mem₀ : Nat → UInt16) (v : UInt16) (j : Nat) :
    upTo 25 (fun mem y => upTo 80 (fun mem x =>
      Function.update mem (y * 80 + x) v) mem) mem₀ j
      = if j < 2000 then v else mem₀ j := by
  refine upTo_inv (fun y (mem : Nat → UInt16) => ∀ j, mem j
      = if j < y * 80 then v else mem₀ j)
    (fun j => ?_) (fun y _ mem hmem j => ?_) j
  · rw [if_neg (by omega)]
  · rw [upTo_update mem (y * 80) 80 (fun _ => v)]
    by_cases hin : y * 80 ≤ j ∧ j < y * 80 + 80
    · rw [if_pos hin, if_pos (by omega)]
    · rw [if_neg hin, hmem]
      by_cases hlow : j < y * 80
      · rw [if_pos hlow, if_pos (by omega)]
      · rw [if_neg hlow, if_neg (by omega)]

/-- The words after `vga_clear`. -/
theorem vgaClear_mem (s : Vga) (j : Nat) :
    (vgaClear s).mem j
      = if j < 2000 then vgaEntry 0x20 s.vgaColor else s.mem j :=
  vgaClear_rows s.mem (vgaEntry 0x20 s.vgaColor) j

/-- The rows that `vga_scroll` moves. -/
theorem vgaScroll_rows (mem₀ : Nat → UInt16) (j : Nat) :
    upTo 24 (fun mem i => upTo 80 (fun mem x =>
      Function.update mem (i * 80 + x) (mem ((i + 1) * 80 + x))) mem) mem₀ j
      = if j < 1920 then mem₀ (j + 80) else mem₀ j := by
  refine upTo_inv (fun i (mem : Nat → UInt16) => ∀ j, mem j
      = if j < i * 80 then mem₀ (j + 80) else mem₀ j)
    (fun j => ?_) (fun i _ mem hmem j => ?_) j
  · rw [if_neg (by omega)]
  · simp only [Nat.succ_mul]
    rw [upTo_move mem (i * 80) 80 80]
    by_cases hin : i * 80 ≤ j ∧ j < i * 80 + 80
    · rw [if_pos hin, hmem, if_neg (by omega), if_pos (by omega)]
    · rw [if_neg hin, hmem]
      by_cases hlow : j < i * 80
      · rw [if_pos hlow, if_pos (by omega)]
      · rw [if_neg hlow, if_neg (by omega)]

/-- The words after `vga_scroll`. -/
theorem vgaScroll_mem (s : Vga) (j : Nat) :
    (vgaScroll s).mem j
      = if j < 1920 then s.mem (j + 80)
        else if j < 2000 then vgaEntry 0x20 s.vgaColor else s.mem j := by
  have hlast : (VGA_HEIGHT - 1) * VGA_WIDTH = 1920 := rfl
  have hwidth : VGA_WIDTH = 80 := rfl
  have hturns : VGA_HEIGHT - 1 = 24 := rfl
  unfold vgaScroll
  dsimp only
  rw [upTo_update _ ((VGA_HEIGHT - 1) * VGA_WIDTH) VGA_WIDTH
    (fun _ => vgaEntry 0x20 s.vgaColor), hlast, hwidth, hturns]
  have hrows := vgaScroll_rows s.mem j
  by_cases hlow : j < 1920
  · rw [if_pos hlow] at hrows ⊢
    rw [if_neg (by omega), hrows]
  · rw [if_neg hlow] at hrows ⊢
    by_cases hin : j < 2000
    · rw [if_pos ⟨by omega, by omega⟩, if_pos hin]
    · rw [if_neg (by omega), if_neg hin, hrows]

end Driver

-- ========================================================== the refinement

/-- The driver shows the console, and has left the words past the screen
as they were in `base`. -/
structure Shows (base : Nat → UInt16) (s : Vga) (c : Console) : Prop where
  row : s.vgaRow = c.screen.row
  col : s.vgaCol = c.screen.col
  colour : s.vgaColor = c.colour
  laid : Laid s.mem c.screen
  outside : ∀ j ≥ 2000, s.mem j = base j

/-- The end of `vga_putc`: wrap, scroll, move the cursor. -/
def settle (s : Vga) : Vga :=
  let s :=
    if s.vgaCol ≥ VGA_WIDTH then
      { s with vgaCol := 0, vgaRow := s.vgaRow + 1 }
    else s
  let s := if s.vgaRow ≥ VGA_HEIGHT then vgaScroll s else s
  vgaMoveCursor s

/-- On the screen, all that is left to do is to move the cursor. -/
theorem settle_stay {s : Vga} (hcol : s.vgaCol < 80) (hrow : s.vgaRow < 25) :
    settle s = vgaMoveCursor s := by
  have hcol' : ¬ s.vgaCol ≥ VGA_WIDTH := Nat.not_le.mpr hcol
  have hrow' : ¬ s.vgaRow ≥ VGA_HEIGHT := Nat.not_le.mpr hrow
  unfold settle
  simp only [if_neg hcol', if_neg hrow']

/-- Below the last row, the screen scrolls first. -/
theorem settle_scroll {s : Vga} (hcol : s.vgaCol < 80)
    (hrow : ¬ s.vgaRow < 25) : settle s = vgaMoveCursor (vgaScroll s) := by
  have hcol' : ¬ s.vgaCol ≥ VGA_WIDTH := Nat.not_le.mpr hcol
  have hrow' : s.vgaRow ≥ VGA_HEIGHT := Nat.not_lt.mp hrow
  unfold settle
  simp only [if_neg hcol', if_pos hrow']

/-- Behind the last column, the next row begins. -/
theorem settle_wrap {s : Vga} (hcol : ¬ s.vgaCol < 80) :
    settle s = settle { s with vgaCol := 0, vgaRow := s.vgaRow + 1 } := by
  have hcol' : s.vgaCol ≥ VGA_WIDTH := Nat.not_lt.mp hcol
  have hzero : ¬ 0 ≥ VGA_WIDTH := by decide
  unfold settle
  simp only [if_pos hcol', if_neg hzero]

/-- The driver between two calls: the hardware cursor is at the position
of the driver. -/
structure Shown (base : Nat → UInt16) (s : Vga) (c : Console) : Prop
    extends Shows base s c where
  pos : cursorPos s = s.vgaRow * 80 + s.vgaCol

section Refine

variable {base : Nat → UInt16} {s : Vga} {c : Console}

/-- When the cursor is moved, memory and cursor both show the console. -/
theorem Shows.moveCursor (h : Shows base s c) :
    Shown base (vgaMoveCursor s) c := by
  have hrow := c.screen.row.isLt
  have hcol := c.screen.col.isLt
  refine ⟨⟨h.row, h.col, h.colour, h.laid, h.outside⟩, ?_⟩
  refine vgaMoveCursor_pos ?_
  rw [h.row, h.col]
  show c.screen.row.val * 80 + c.screen.col.val < _
  omega

/-- The rows that move up in memory are those that move up on the screen. -/
theorem Shows.scroll (h : Shows base s c) (row : Nat) :
    Shows base (vgaScroll { s with vgaCol := 0, vgaRow := row })
      { c with
        screen :=
          { c.screen.carriageReturn.scroll (vgaEntry 0x20 c.colour) with
            row := ⟨24, by decide⟩ } } := by
  have hmem := vgaScroll_mem { s with vgaCol := 0, vgaRow := row }
  refine ⟨rfl, rfl, h.colour, ?_, ?_⟩
  · refine h.laid.scroll _ ?_ ?_
    · intro y x hy
      have hplace : index 80 y x < 1920 := by
        unfold index
        omega
      have hnext : index 80 y x + 80 = index 80 (y.val + 1) x := by
        unfold index
        omega
      rw [hmem, if_pos hplace, hnext]
    · intro y x hy
      have hplace : ¬ index 80 y x < 1920 := by
        unfold index
        omega
      have hlt : index 80 y x < 25 * 80 := index_lt
      rw [hmem, if_neg hplace, if_pos hlt, h.colour]
  · intro j hj
    rw [hmem, if_neg (by omega), if_neg (by omega)]
    exact h.outside j hj

/-- At a newline: the next row. -/
theorem Shows.settle_newline (h : Shows base s c) :
    Shown base (settle { s with vgaCol := 0, vgaRow := s.vgaRow + 1 })
      { c with screen := c.screen.newline (vgaEntry 0x20 c.colour) } := by
  have hrow := h.row
  by_cases hlast : c.screen.row.val + 1 < 25
  · unfold newline
    rw [settle_stay (show 0 < 80 by decide) (by rw [hrow]; exact hlast),
      dif_pos hlast]
    refine Shows.moveCursor ⟨?_, rfl, h.colour, h.laid, h.outside⟩
    show s.vgaRow + 1 = _
    rw [hrow]
  · have hlt := c.screen.row.isLt
    have hlast' : c.screen.row = ⟨24, by decide⟩ :=
      Fin.ext (by
        show c.screen.row.val = 24
        omega)
    unfold newline
    rw [settle_scroll (show 0 < 80 by decide) (by rw [hrow]; exact hlast),
      dif_neg hlast]
    have hscroll := (h.scroll (s.vgaRow + 1)).moveCursor
    rw [← hlast'] at hscroll
    exact hscroll

/-- To a column, or past the last one to the next row. -/
theorem Shows.settle_moveTo (h : Shows base s c) (x : Nat) :
    Shown base (settle { s with vgaCol := x })
      { c with
        screen := c.screen.moveTo (vgaEntry 0x20 c.colour) x } := by
  have hrow := h.row
  have hlt := c.screen.row.isLt
  unfold moveTo
  by_cases hx : x < 80
  · rw [settle_stay hx (by rw [hrow]; exact hlt), dif_pos hx]
    exact Shows.moveCursor ⟨h.row, rfl, h.colour, h.laid, h.outside⟩
  · rw [settle_wrap hx, dif_neg hx]
    exact h.settle_newline

/-- A cell written, and the cursor left where it is. -/
theorem Shows.write (h : Shows base s c) (y : Fin 25) (x : Fin 80)
    (v : UInt16) :
    Shows base { s with mem := Function.update s.mem (index 80 y x) v }
      { c with screen := c.screen.setCell y x v } := by
  refine ⟨h.row, h.col, h.colour, h.laid.set y x v, fun j hj => ?_⟩
  have hlt : index 80 y x < 25 * 80 := index_lt
  have hne : j ≠ index 80 y x := by omega
  show Function.update s.mem _ v j = _
  rw [Function.update_of_ne hne]
  exact h.outside j hj

/-- The arithmetic on bits goes to the next multiple of four. -/
theorem tab_stop {x : Nat} (hx : x < 80) :
    (UInt32.ofNat (x + 4) &&& ~~~3).toNat = (x / 4 + 1) * 4 := by
  have hall : ∀ x : Fin 80,
      (UInt32.ofNat (x.val + 4) &&& ~~~3).toNat = (x.val / 4 + 1) * 4 := by
    decide +kernel
  exact hall ⟨x, hx⟩

/-- A byte is known by its signed value. -/
theorem toInt8_eq_iff (b c : UInt8) : b.toInt8 = c.toInt8 ↔ b = c := by
  constructor
  · intro h
    have huint := congrArg Int8.toUInt8 h
    rw [UInt8.toUInt8_toInt8, UInt8.toUInt8_toInt8] at huint
    exact huint
  · intro h
    rw [h]

/-- Backspace, as the driver computes it. -/
theorem Shown.backspace (h : Shown base s c) :
    Shown base
      (settle (if 0 < s.vgaCol then
        { s with
          vgaCol := s.vgaCol - 1
          mem := Function.update s.mem
            (s.vgaRow * VGA_WIDTH + (s.vgaCol - 1))
            (vgaEntry 0x20 s.vgaColor) }
        else s))
      { c with
        screen := c.screen.backspace (vgaEntry 0x20 c.colour) } := by
  have hcol := h.col
  unfold Terminal.backspace
  by_cases hzero : c.screen.col.val = 0
  · have hstay := h.settle_moveTo s.vgaCol
    rw [hcol, moveTo_self] at hstay
    rw [if_neg (by omega), if_pos hzero]
    rw [← hcol] at hstay
    exact hstay
  · have hlt := c.screen.col.isLt
    have hx : c.screen.col.val - 1 < 80 := by omega
    have hplace : s.vgaRow * VGA_WIDTH + (s.vgaCol - 1)
        = index 80 c.screen.row (c.screen.col.val - 1) := by
      rw [h.row, hcol]
      rfl
    have hcell : vgaEntry 0x20 s.vgaColor = vgaEntry 0x20 c.colour := by
      rw [h.colour]
    have hback : s.vgaCol - 1 = c.screen.col.val - 1 := by rw [hcol]
    have hwrite := (h.write c.screen.row ⟨c.screen.col.val - 1, hx⟩
      (vgaEntry 0x20 c.colour)).settle_moveTo (c.screen.col.val - 1)
    unfold moveTo at hwrite
    rw [dif_pos hx] at hwrite
    rw [if_pos (by omega), if_neg hzero, hplace, hcell, hback]
    exact hwrite

/-- To compare signed characters is to compare bytes. -/
theorem char_eq (b k : UInt8) : (b.toInt8 = k.toInt8) = (b = k) :=
  propext (toInt8_eq_iff b k)

/-- `vga_putc`: the switch, then the common end. -/
theorem vgaPutc_eq (s : Vga) (b : UInt8) :
    vgaPutc s b.toInt8 = settle
      (if b = 10 then { s with vgaCol := 0, vgaRow := s.vgaRow + 1 }
      else if b = 13 then { s with vgaCol := 0 }
      else if b = 9 then
        { s with vgaCol := (UInt32.ofNat (s.vgaCol + 4) &&& ~~~3).toNat }
      else if b = 8 then
        if 0 < s.vgaCol then
          { s with
            vgaCol := s.vgaCol - 1
            mem := Function.update s.mem
              (s.vgaRow * VGA_WIDTH + (s.vgaCol - 1))
              (vgaEntry 0x20 s.vgaColor) }
        else s
      else
        { s with
          mem := Function.update s.mem (s.vgaRow * VGA_WIDTH + s.vgaCol)
            (vgaEntry b.toInt8 s.vgaColor)
          vgaCol := s.vgaCol + 1 }) := by
  simp only [← char_eq b 10, ← char_eq b 13, ← char_eq b 9, ← char_eq b 8]
  rfl

/-- One byte, whatever is written. -/
theorem Shown.putc (h : Shown base s c) (b : UInt8) :
    Shown base (vgaPutc s b.toInt8) (c.step vgaPacking (.putc b)) := by
  have hcol := h.col
  have hcolour : vgaEntry b.toInt8 s.vgaColor
      = vgaEntry b.toInt8 c.colour := by
    rw [h.colour]
  have hplace : s.vgaRow * VGA_WIDTH + s.vgaCol
      = index 80 c.screen.row c.screen.col := by
    rw [h.row, h.col]
    rfl
  rw [vgaPutc_eq]
  simp only [Console.step]
  by_cases hnl : b = 10
  · rw [if_pos hnl, if_pos hnl]
    exact h.settle_newline
  rw [if_neg hnl, if_neg hnl]
  by_cases hcr : b = 13
  · rw [if_pos hcr, if_pos hcr]
    exact h.settle_moveTo 0
  rw [if_neg hcr, if_neg hcr]
  by_cases htab : b = 9
  · have hstop := tab_stop (x := s.vgaCol) (hcol ▸ Fin.isLt _)
    rw [if_pos htab, if_pos htab, hstop, hcol]
    exact h.settle_moveTo _
  rw [if_neg htab, if_neg htab]
  by_cases hbs : b = 8
  · rw [if_pos hbs, if_pos hbs]
    exact h.backspace
  · have hnext : s.vgaCol + 1 = c.screen.col.val + 1 := by rw [hcol]
    rw [if_neg hbs, if_neg hbs, hplace, hcolour, hnext]
    exact (h.write c.screen.row c.screen.col
      (vgaEntry b.toInt8 c.colour)).settle_moveTo (c.screen.col.val + 1)

/-- The refinement: the driver follows the console that packs its cells
as `vga_entry` does. -/
theorem Shown.step (h : Shown base s c) (op : VgaOp) :
    Shown base (vgaStep s op) (c.step vgaPacking op) := by
  cases op with
  | putc b => exact h.putc b
  | setColor fg bg =>
      exact ⟨⟨h.row, h.col, rfl, h.laid, h.outside⟩, h.pos⟩

/-- Whatever is done to the text console, memory shows what the reference
shows. -/
theorem Shown.exec (h : Shown base s c) (ops : List VgaOp) :
    Shown base (Machine.exec vgaStep s ops)
      (Machine.exec (Console.step vgaPacking) c ops) := by
  induction ops generalizing s c with
  | nil => exact h
  | cons op ops ih => exact ih (h.step op)

end Refine

/-- The driver after `vga_clear`, in the colour in force. -/
theorem shown_clear (s : Vga) :
    Shown s.mem (vgaClear s)
      { screen := clear (vgaPacking 0x20 s.vgaColor) (by decide) (by decide)
        colour := s.vgaColor } := by
  refine Shows.moveCursor ⟨rfl, rfl, rfl, fun y x => ?_, fun j hj => ?_⟩
  · have hlt : index 80 y x < 25 * 80 := index_lt
    exact (vgaClear_mem _ _).trans (if_pos hlt)
  · exact (vgaClear_mem _ _).trans (if_neg (by omega))

/-- After `vga_init`, memory shows an empty screen. -/
theorem shown_init (s : Vga) :
    Shown s.mem (vgaInit s) (Console.init vgaPacking) :=
  shown_clear (vgaSetColor s VGA_LIGHT_GREY VGA_BLACK)

-- ====================================================== the two consoles

section Compare

variable {base : Nat → UInt16} {s : Vga} {c : Console}

/-- The cursor and the colour do not depend on the packing. -/
theorem Console.step_control (p q : Packing) {c d : Console}
    (hpos : SamePos c.screen d.screen) (hcolour : c.colour = d.colour)
    (op : VgaOp) :
    SamePos (c.step p op).screen (d.step q op).screen
      ∧ (c.step p op).colour = (d.step q op).colour := by
  cases op with
  | setColor fg bg => exact ⟨hpos, rfl⟩
  | putc b =>
      unfold Console.step
      dsimp only
      split
      · exact ⟨hpos.newline _ _, hcolour⟩
      · split
        · exact ⟨⟨hpos.1, rfl⟩, hcolour⟩
        · split
          · exact ⟨hpos.tab 4 _ _, hcolour⟩
          · split
            · exact ⟨hpos.backspace _ _, hcolour⟩
            · exact ⟨hpos.put _ _ _ _, hcolour⟩

/-- How a character is packed matters neither to the cursor nor to the
colour. -/
theorem Console.exec_control (p q : Packing) {c d : Console}
    (hpos : SamePos c.screen d.screen) (hcolour : c.colour = d.colour)
    (ops : List VgaOp) :
    SamePos (exec (Console.step p) c ops).screen
        (exec (Console.step q) d ops).screen
      ∧ (exec (Console.step p) c ops).colour
        = (exec (Console.step q) d ops).colour := by
  induction ops generalizing c d with
  | nil => exact ⟨hpos, hcolour⟩
  | cons op ops ih =>
      have hstep := Console.step_control p q hpos hcolour op
      exact ih hstep.1 hstep.2

/-- A plain step makes the same cell in both packings. -/
theorem Console.step_plain (h : Shows base s c) {op : VgaOp}
    (hplain : Plain s op) : c.step vgaPacking op = c.step cellWord op := by
  have hblank : vgaPacking 0x20 c.colour = cellWord 0x20 c.colour :=
    (vgaPacking_eq_iff _ _).mpr (Or.inl (by decide))
  cases op with
  | setColor fg bg => rfl
  | putc b =>
      have hcell : vgaPacking b c.colour = cellWord b c.colour := by
        rw [vgaPacking_eq_iff, ← h.colour]
        exact hplain
      simp only [Console.step, hblank, hcell]

/-- Where a step is not plain, the screens differ after it. -/
theorem Console.step_not_plain (h : Shows base s c) {op : VgaOp}
    (hplain : ¬ Plain s op) :
    ∃ y x, (c.step vgaPacking op).screen.cell y x
      ≠ (c.step cellWord op).screen.cell y x := by
  cases op with
  | setColor fg bg => exact absurd trivial hplain
  | putc b =>
      have hhigh : ¬ b < 0x80 := fun hlow => hplain (Or.inl hlow)
      have hne : ∀ k : UInt8, k < 0x80 → b ≠ k := by
        intro k hk heq
        exact hhigh (heq ▸ hk)
      have hcell : vgaPacking b c.colour ≠ cellWord b c.colour := by
        rw [Ne, vgaPacking_eq_iff, ← h.colour]
        exact hplain
      have hblank : vgaPacking 0x20 c.colour = cellWord 0x20 c.colour :=
        (vgaPacking_eq_iff _ _).mpr (Or.inl (by decide))
      obtain ⟨y, x, hshow⟩ := put_shows (by decide)
        (cellWord 0x20 c.colour) c.screen
      refine ⟨y, x, ?_⟩
      simp only [Console.step, if_neg (hne 10 (by decide)),
        if_neg (hne 13 (by decide)), if_neg (hne 9 (by decide)),
        if_neg (hne 8 (by decide)), hblank, hshow]
      exact hcell

/-- The screens agree at every point of a run exactly when its steps are
all plain. -/
theorem memory_agrees_iff (h : Shown base s c) (ops : List VgaOp) :
    (∀ pre, pre <+: ops → ∀ (y : Fin 25) (x : Fin 80),
        (exec vgaStep s pre).mem (index 80 y x)
          = (exec (Console.step cellWord) c pre).screen.cell y x)
      ↔ Along vgaStep Plain s ops := by
  induction ops generalizing s c with
  | nil =>
      constructor
      · intro _
        trivial
      · intro _ pre hpre y x
        rw [List.prefix_nil.mp hpre]
        exact h.laid y x
  | cons op ops ih =>
      have hnext := h.step op
      constructor
      · intro hagree
        have hplain : Plain s op := by
          by_contra hnot
          obtain ⟨y, x, hne⟩ := Console.step_not_plain h.toShows hnot
          have hone : [op] <+: op :: ops := ⟨ops, rfl⟩
          have heq := hagree [op] hone y x
          rw [exec_cons, exec_nil, exec_cons, exec_nil,
            hnext.laid y x] at heq
          exact hne heq
        rw [Console.step_plain h.toShows hplain] at hnext
        refine ⟨hplain, (ih hnext).mp fun pre hpre y x => ?_⟩
        exact hagree (op :: pre) (List.cons_prefix_cons.mpr ⟨rfl, hpre⟩) y x
      · intro halong pre hpre y x
        rw [Console.step_plain h.toShows halong.1] at hnext
        cases pre with
        | nil => exact h.laid y x
        | cons first pre =>
            obtain ⟨rfl, hrest⟩ := List.cons_prefix_cons.mp hpre
            exact (ih hnext).mpr halong.2 pre hrest y x

end Compare

-- =============================================================== the claim

/-- From `vga_init` on, over any bytes and colours: the cursor stays
inside and is the reference's, in the driver and in the hardware; the
colour is the reference's; no word past the screen changes; and the
memory is that of the reference terminal at every point of the run
exactly when every character from 0x80 on is written in the colour
0xFF. -/
theorem vga_reference_iff (s₀ : Vga) (ops : List VgaOp) :
    let s := exec vgaStep (vgaInit s₀) ops
    let c := exec (Console.step cellWord) (Console.init cellWord) ops
    (s.vgaRow < 25 ∧ s.vgaCol < 80
      ∧ s.vgaRow = c.screen.row ∧ s.vgaCol = c.screen.col
      ∧ cursorPos s = s.vgaRow * 80 + s.vgaCol ∧ s.vgaColor = c.colour
      ∧ ∀ j ≥ 2000, s.mem j = s₀.mem j)
    ∧ ((∀ pre, pre <+: ops → ∀ (y : Fin 25) (x : Fin 80),
          (exec vgaStep (vgaInit s₀) pre).mem (index 80 y x)
            = (exec (Console.step cellWord) (Console.init cellWord)
                pre).screen.cell y x)
        ↔ Along vgaStep Plain (vgaInit s₀) ops) := by
  intro s c
  have hinit : Console.init vgaPacking = Console.init cellWord := by
    unfold Console.init
    rw [(vgaPacking_eq_iff 0x20 0x07).mpr (Or.inl (by decide))]
  have hshown := shown_init s₀
  have hrun := hshown.exec ops
  obtain ⟨hpos, hcolour⟩ := Console.exec_control vgaPacking cellWord
    (c := Console.init vgaPacking) (d := Console.init cellWord)
    ⟨rfl, rfl⟩ rfl ops
  rw [hinit] at hshown
  refine ⟨⟨?_, ?_, ?_, ?_, hrun.pos, ?_, hrun.outside⟩,
    memory_agrees_iff hshown ops⟩
  · exact hrun.row ▸ Fin.isLt _
  · exact hrun.col ▸ Fin.isLt _
  · exact hrun.row.trans (congrArg Fin.val hpos.1)
  · exact hrun.col.trans (congrArg Fin.val hpos.2)
  · exact hrun.colour.trans hcolour

/-- One byte 0xE9 on a cleared screen: the cell is 0xFFE9, white on white
and blinking, where the reference has 0x07E9, light grey on black. -/
theorem vga_reference_fails :
    let s₀ : Vga :=
      { vgaRow := 0, vgaCol := 0, vgaColor := 0, mem := fun _ => 0
        crtc := { index := 0, reg := fun _ => 0 } }
    (exec vgaStep (vgaInit s₀) [.putc 0xE9]).mem 0 = 0xFFE9
      ∧ (exec (Console.step cellWord) (Console.init cellWord)
          [.putc 0xE9]).screen.cell ⟨0, by decide⟩ ⟨0, by decide⟩
        = 0x07E9 := by
  intro s₀
  have hrun := (shown_init s₀).exec [.putc 0xE9]
  exact ⟨hrun.laid ⟨0, by decide⟩ ⟨0, by decide⟩, by decide⟩

end Thuos.Video
