/-
Which accepted framebuffers are mapped.

The pixels of a framebuffer of `r` rows reach `span` bytes from its
address, and the pages that the call maps end on a 4 MiB boundary at most
32 MiB from the boundary below the address. So the framebuffer is mapped
exactly when its last byte is (`fullyMapped_iff`). What the driver clamps
is the length, not the distance from the boundary: a framebuffer that does
not start on a boundary may need a ninth table, which the mapper leaves
out. Two more cases come from arithmetic that wraps: a product of pitch
and height past 4 GiB, and a width or a height that is negative as an
`int`, where there is no pixel at all (`FbFits`).
-/
import Thuos.Mm.Proofs.LfbWindow
import Thuos.Video.Lfb

namespace Thuos.Video

open Loop Mm

-- ========================================================== what is stated

/-- The exact address of a pixel. -/
def pixelAddr (s : Lfb) (x y : Int) : Int :=
  s.fbp.toNat + 4 * (y * s.pitchPx + x)

/-- Every pixel ends below 4 GiB, in pages that the call mapped and that
are present. -/
def FullyMapped (L : VmmLayout) (v : Vmm) (s : Lfb) (phys bytes : Nat) :
    Prop :=
  ∀ x y : Int, 0 ≤ x → x < s.W → 0 ≤ y → y < s.H →
    pixelAddr s x y + 4 ≤ 2 ^ 32
      ∧ ∀ b : Nat, pixelAddr s x y ≤ b → b < pixelAddr s x y + 4 →
        InWindow phys bytes b
          ∧ vmmTranslate v.mem L.pageDir 0 0 b = some b

/-- The framebuffers that are mapped: no pixel at all; or the product of
pitch and height is as it should be, and the rows that remain end below
4 GiB and within 32 MiB of the boundary below the address; or the product
has wrapped and there is one row, in the pages that are left of it. -/
def FbFits (addr pitch w h : Nat) : Prop :=
  let bytes := pitch * h + 4096
  2 ^ 31 ≤ w ∨ (2 ^ 31 ≤ h ∧ bytes % 2 ^ 32 ≤ 2 ^ 25) ∨
    if bytes < 2 ^ 32 ∨ 2 ^ 25 < bytes % 2 ^ 32 then
      let rows := min h ((2 ^ 25 - 4096) / pitch)
      let span := 4 * ((rows - 1) * (pitch / 4) + w)
      addr + span ≤ 2 ^ 32 ∧ addr % 2 ^ 22 + span ≤ 2 ^ 25
    else
      h = 1 ∧ addr + 4 * w ≤ 2 ^ 32
        ∧ addr % 2 ^ 22 + 4 * w
          ≤ (addr % 2 ^ 22 + bytes % 2 ^ 32 + 2 ^ 22 - 1) / 2 ^ 22 * 2 ^ 22

instance (addr pitch w h : Nat) : Decidable (FbFits addr pitch w h) := by
  unfold FbFits
  infer_instance

-- ================================================================ the words

/-- The conversion of a word to an `int`. -/
theorem toInt_eq (n : UInt32) :
    n.toInt32.toInt
      = if n.toNat < 2 ^ 31 then (n.toNat : Int) else n.toNat - 2 ^ 32 := by
  have hbits : n.toInt32.toInt = n.toBitVec.toInt := rfl
  have hnat : n.toBitVec.toNat = n.toNat := rfl
  rw [hbits, BitVec.toInt_eq_toNat_cond, hnat]
  split
  · rw [if_pos (by omega)]
  · rw [if_neg (by omega)]
    rfl

theorem lfbRows_toNat (pitch h : UInt32) :
    (lfbRows pitch h).toNat
      = if 2 ^ 25 < (pitch.toNat * h.toNat + 4096) % 2 ^ 32 then
          (2 ^ 25 - 4096) / pitch.toNat
        else h.toNat := by
  have hneed : (pitch * h + 0x1000).toNat
      = (pitch.toNat * h.toNat + 4096) % 2 ^ 32 := by
    rw [UInt32.toNat_add, UInt32.toNat_mul]
    show (_ % 2 ^ 32 + 4096) % 2 ^ 32 = _
    omega
  have hclamp : ((vmmLfbCapacity - 0x1000) / pitch).toNat
      = (2 ^ 25 - 4096) / pitch.toNat := UInt32.toNat_div ..
  have hover : pitch * h + 0x1000 > vmmLfbCapacity
      ↔ 2 ^ 25 < (pitch.toNat * h.toNat + 4096) % 2 ^ 32 := by
    rw [gt_iff_lt, UInt32.lt_iff_toNat_lt, hneed]
    rfl
  unfold lfbRows
  dsimp only
  split
  · next hcond => rw [if_pos (hover.mp hcond), hclamp]
  · next hcond => rw [if_neg (mt hover.mpr hcond)]

theorem lfbBytes_toNat (pitch h : UInt32) :
    (lfbBytes pitch h).toNat
      = (pitch.toNat * (lfbRows pitch h).toNat + 4096) % 2 ^ 32 := by
  unfold lfbBytes
  rw [UInt32.toNat_add, UInt32.toNat_mul]
  show (_ % 2 ^ 32 + 4096) % 2 ^ 32 = _
  omega

-- ============================================================ the arithmetic

section Arith

variable {pitch h w : Nat}

/-- Where the product has not wrapped back into the window, the clamp
leaves what fits in it. -/
theorem rows_fit (hpitch : 0 < pitch)
    (hexact : pitch * h + 4096 < 2 ^ 32
      ∨ 2 ^ 25 < (pitch * h + 4096) % 2 ^ 32) :
    (if 2 ^ 25 < (pitch * h + 4096) % 2 ^ 32 then (2 ^ 25 - 4096) / pitch
        else h)
      = min h ((2 ^ 25 - 4096) / pitch)
      ∧ pitch * min h ((2 ^ 25 - 4096) / pitch) + 4096 ≤ 2 ^ 25 := by
  have hmul : pitch * ((2 ^ 25 - 4096) / pitch) ≤ 2 ^ 25 - 4096 :=
    Nat.mul_div_le _ _
  by_cases hover : 2 ^ 25 < (pitch * h + 4096) % 2 ^ 32
  · have hlt : (2 ^ 25 - 4096) / pitch < h := by
      rw [Nat.div_lt_iff_lt_mul hpitch, Nat.mul_comm]
      omega
    rw [if_pos hover, Nat.min_eq_right (Nat.le_of_lt hlt)]
    exact ⟨rfl, by omega⟩
  · have hle : h ≤ (2 ^ 25 - 4096) / pitch := by
      rw [Nat.le_div_iff_mul_le hpitch, Nat.mul_comm]
      omega
    rw [if_neg hover, Nat.min_eq_left hle]
    exact ⟨rfl, by omega⟩

/-- The rows, without the rest of the last scanline, end within pitch
times height. -/
theorem span_le {r : Nat} (hw : 4 * w ≤ pitch) (hr : 0 < r) :
    4 * ((r - 1) * (pitch / 4) + w) ≤ pitch * r := by
  have hquarter : 4 * (pitch / 4) ≤ pitch := Nat.mul_div_le _ _
  calc 4 * ((r - 1) * (pitch / 4) + w)
      = (r - 1) * (4 * (pitch / 4)) + 4 * w := by ring
    _ ≤ (r - 1) * pitch + pitch :=
        Nat.add_le_add (Nat.mul_le_mul_left _ hquarter) hw
    _ = pitch * r := by
        rw [← Nat.succ_mul, Nat.succ_eq_add_one, Nat.sub_add_cancel hr,
          Nat.mul_comm]

/-- A product that passed 4 GiB with two rows or more: the rows pass the
window. -/
theorem span_past (hpitch : 4 ≤ pitch) (hh : 2 ≤ h)
    (hpast : 2 ^ 32 ≤ pitch * h + 4096) :
    2 ^ 25 < 4 * ((h - 1) * (pitch / 4) + w) := by
  have hq : pitch ≤ 7 * (pitch / 4) := by omega
  have hh' : h ≤ 2 * (h - 1) := by omega
  have hprod : pitch * h ≤ 7 * (pitch / 4) * (2 * (h - 1)) :=
    Nat.mul_le_mul hq hh'
  have hring : 7 * (pitch / 4) * (2 * (h - 1))
      = 14 * ((h - 1) * (pitch / 4)) := by ring
  omega

/-- The tables of a call of at most 32 MiB. -/
theorem lfbTables_eq {phys bytes : Nat} (hphys : phys < 2 ^ 32)
    (hbytes : bytes ≤ 2 ^ 25) :
    lfbTables phys bytes
      = min ((phys % 2 ^ 22 + bytes + 2 ^ 22 - 1) / 2 ^ 22) 8 := by
  have hnpts : windowNpts phys bytes
      = (phys % 2 ^ 22 + bytes + 2 ^ 22 - 1) / 2 ^ 22 := by
    unfold windowNpts
    rw [windowBase_eq hphys]
    unfold Word32.sub32 Word32.add32 FOURMB
    omega
  unfold lfbTables
  rw [hnpts]
  rfl

/-- At most eight tables, and with fewer the whole range is covered. -/
theorem lfbTables_cover {phys bytes : Nat} (hphys : phys < 2 ^ 32)
    (hbytes : bytes ≤ 2 ^ 25) :
    lfbTables phys bytes ≤ 8
      ∧ (lfbTables phys bytes = 8
        ∨ phys % 2 ^ 22 + bytes ≤ 2 ^ 22 * lfbTables phys bytes) := by
  rw [lfbTables_eq hphys hbytes]
  generalize phys % 2 ^ 22 = off
  omega

/-- The window from the boundary below the address on. -/
theorem inWindow_iff {phys bytes b : Nat} (hlo : phys ≤ b)
    (hb : b < 2 ^ 32) :
    InWindow phys bytes b
      ↔ b < phys / 2 ^ 22 * 2 ^ 22 + 2 ^ 22 * lfbTables phys bytes := by
  have hle : lfbTables phys bytes ≤ 8 := Nat.min_le_right ..
  unfold InWindow windowSlot
  constructor
  · rintro ⟨t, ht, hslot⟩
    omega
  · intro hlt
    exact ⟨b / 2 ^ 22 - phys / 2 ^ 22, by omega, by omega⟩

end Arith

-- ================================================================ the call

section Call

variable {L : VmmLayout} {v : Vmm} {s : Lfb} {addr pitch w h bpp : UInt32}

theorem lfbClear_statics (s : Lfb) (rgb : UInt32) :
    (lfbClear s rgb).fbp = s.fbp ∧ (lfbClear s rgb).W = s.W
      ∧ (lfbClear s rgb).H = s.H ∧ (lfbClear s rgb).pitchPx = s.pitchPx := by
  unfold lfbClear
  exact upTo_inv (fun _ (t : Lfb) => t.fbp = s.fbp ∧ t.W = s.W ∧ t.H = s.H
    ∧ t.pitchPx = s.pitchPx) ⟨rfl, rfl, rfl, rfl⟩ fun _ _ _ ht => ht

/-- What an accepted call has checked, and what it leaves. -/
structure Accepted (L : VmmLayout) (v : Vmm) (s : Lfb)
    (addr pitch w h : UInt32) (r : Vmm × Lfb × Nat) : Prop where
  addr_pos : 0 < addr.toNat
  w_pos : 0 < w.toNat
  h_pos : 0 < h.toNat
  pitch_ge : w.toNat * 4 % 2 ^ 32 ≤ pitch.toNat
  rows_pos : 0 < (lfbRows pitch h).toNat
  vmm : r.1 = (vmmMapLfb L v addr.toNat (lfbBytes pitch h).toNat).1
  fbp : r.2.1.fbp = addr
  width : r.2.1.W = w.toInt32.toInt
  height : r.2.1.H = (lfbRows pitch h).toInt32.toInt
  pitchPx : r.2.1.pitchPx = (pitch.toNat / 4 : Nat)

theorem accepted (hacc : (lfbInitFb L v s addr pitch w h bpp).2.2 = 1) :
    Accepted L v s addr pitch w h (lfbInitFb L v s addr pitch w h bpp) := by
  unfold lfbInitFb at hacc ⊢
  dsimp only at hacc ⊢
  by_cases hrej : lfbRejects addr pitch w h bpp = true
  · rw [if_pos hrej] at hacc
    cases hacc
  rw [if_neg hrej] at hacc ⊢
  by_cases hrows : lfbRows pitch h = 0
  · rw [if_pos hrows] at hacc
    cases hacc
  rw [if_neg hrows] at hacc ⊢
  by_cases hok : (vmmMapLfb L v addr.toNat (lfbBytes pitch h).toNat).2 = 0
  · rw [if_pos hok] at hacc
    cases hacc
  rw [if_neg hok]
  generalize hrows' : lfbRows pitch h = rows at *
  obtain ⟨hfbp, hw, hh, hpp⟩ := lfbClear_statics
    { s with
      fbp := addr, W := w.toInt32.toInt, H := rows.toInt32.toInt
      pitchPx := (pitch / 4).toInt32.toInt, active := true } 0x000000
  have hpos : ∀ n : UInt32, n ≠ 0 → 0 < n.toNat := by
    intro n hn
    rw [Nat.pos_iff_ne_zero]
    exact fun hzero => hn (UInt32.toNat_inj.mp hzero)
  simp only [lfbRejects, Bool.or_eq_true, decide_eq_true_eq, not_or,
    not_not, UInt32.not_lt] at hrej
  obtain ⟨⟨⟨⟨haddr, _⟩, hw0⟩, hh0⟩, hpitch⟩ := hrej
  subst hrows'
  dsimp only at hw hh hpp
  refine ⟨hpos _ haddr, hpos _ hw0, hpos _ hh0, ?_, hpos _ hrows, rfl, hfbp,
    hw, ?_, ?_⟩
  · have hle := UInt32.le_iff_toNat_le.mp hpitch
    rw [UInt32.toNat_mul] at hle
    exact hle
  · exact hh
  · have hlt := pitch.toNat_lt
    have hdiv : (pitch / 4).toNat = pitch.toNat / 4 := UInt32.toNat_div ..
    have hint := toInt_eq (pitch / 4)
    rw [hdiv, if_pos (by omega)] at hint
    rw [← hint]
    exact hpp

end Call

-- ============================================================ the last pixel

section Last

variable {L : VmmLayout} {v : Vmm} {s : Lfb}

/-- The pixels are mapped exactly when the last one is. -/
theorem fullyMapped_iff (hready : v.ready = true) {q : Nat} (bytes : Nat)
    (hpitch : s.pitchPx = q) :
    FullyMapped L (vmmMapLfb L v s.fbp.toNat bytes).1 s s.fbp.toNat bytes
      ↔ s.W ≤ 0 ∨ s.H ≤ 0
        ∨ (s.fbp.toNat + 4 * ((s.H - 1) * q + s.W) ≤ 2 ^ 32
          ∧ (s.fbp.toNat % 2 ^ 22 : Int) + 4 * ((s.H - 1) * q + s.W)
            ≤ 2 ^ 22 * lfbTables s.fbp.toNat bytes) := by
  have hfbp := s.fbp.toNat_lt
  unfold FullyMapped pixelAddr
  rw [hpitch]
  constructor
  · intro hall
    by_cases hw : s.W ≤ 0
    · exact Or.inl hw
    by_cases hh : s.H ≤ 0
    · exact Or.inr (Or.inl hh)
    refine Or.inr (Or.inr ?_)
    have hrow : 0 ≤ (s.H - 1) * (q : Int) := by
      apply Int.mul_nonneg
      · omega
      · omega
    obtain ⟨hend, hpages⟩ := hall (s.W - 1) (s.H - 1) (by omega) (by omega)
      (by omega) (by omega)
    generalize (s.H - 1) * (q : Int) = top at *
    -- the last byte of the last pixel
    have hlast := (hpages (s.fbp.toNat + 4 * (top + (s.W - 1)) + 3).toNat
      (by omega) (by omega)).1
    rw [inWindow_iff (by omega) (by omega)] at hlast
    refine ⟨by omega, ?_⟩
    omega
  · rintro (hw | hh | ⟨hend, hwin⟩) x y hx hxw hy hyh
    · omega
    · omega
    · have hrow : y * (q : Int) ≤ (s.H - 1) * q := by
        apply Int.mul_le_mul_of_nonneg_right
        · omega
        · omega
      have hrow0 : 0 ≤ y * (q : Int) := by
        apply Int.mul_nonneg hy
        omega
      generalize (s.H - 1) * (q : Int) = top at *
      generalize y * (q : Int) = here at *
      refine ⟨by omega, fun b hlo hhi => ?_⟩
      have hb : b < 2 ^ 32 := by omega
      have hin : InWindow s.fbp.toNat bytes b := by
        rw [inWindow_iff (by omega) hb]
        omega
      exact ⟨hin, hin.translate hready hfbp hb⟩

end Last

-- ========================================================== the condition

section Condition

variable {a pitch w h r : Nat}

/-- While the length that is mapped covers the rows, the window of 32 MiB
is what cuts them off. -/
theorem last_iff_window (ha' : a < 2 ^ 32) (hline : 4 * w ≤ pitch)
    (hr0 : 0 < r) (hfit : pitch * r + 4096 ≤ 2 ^ 25) :
    a % 2 ^ 22 + 4 * ((r - 1) * (pitch / 4) + w)
        ≤ 2 ^ 22 * lfbTables a ((pitch * r + 4096) % 2 ^ 32)
      ↔ a % 2 ^ 22 + 4 * ((r - 1) * (pitch / 4) + w) ≤ 2 ^ 25 := by
  have hspan := span_le hline hr0
  obtain ⟨hle, hcover⟩ := lfbTables_cover ha' hfit
  rw [Nat.mod_eq_of_lt (Nat.lt_of_le_of_lt hfit (by decide))]
  generalize 4 * ((r - 1) * (pitch / 4) + w) = span at *
  generalize lfbTables a (pitch * r + 4096) = tables at *
  generalize pitch * r = bytes at *
  generalize a % 2 ^ 22 = off at *
  omega

/-- Where the product has wrapped, one row fits in the pages that are left
of it, and more rows pass the window. -/
theorem last_iff_wrapped (ha' : a < 2 ^ 32) (hw : 0 < w)
    (hline : 4 * w ≤ pitch) (hp32 : pitch < 2 ^ 32) (hr0 : 0 < r)
    (hpast : 2 ^ 32 ≤ pitch * r + 4096)
    (hneed : (pitch * r + 4096) % 2 ^ 32 ≤ 2 ^ 25) :
    (a + 4 * ((r - 1) * (pitch / 4) + w) ≤ 2 ^ 32
        ∧ a % 2 ^ 22 + 4 * ((r - 1) * (pitch / 4) + w)
          ≤ 2 ^ 22 * lfbTables a ((pitch * r + 4096) % 2 ^ 32))
      ↔ r = 1 ∧ a + 4 * w ≤ 2 ^ 32
        ∧ a % 2 ^ 22 + 4 * w
          ≤ (a % 2 ^ 22 + (pitch * r + 4096) % 2 ^ 32 + 2 ^ 22 - 1)
            / 2 ^ 22 * 2 ^ 22 := by
  by_cases hone : r = 1
  · subst hone
    have hsmall : (pitch * 1 + 4096) % 2 ^ 32 < 4096 := by omega
    rw [lfbTables_eq ha' hneed, Nat.mul_comm (2 ^ 22),
      Nat.min_eq_left (by omega), Nat.sub_self, Nat.zero_mul, Nat.zero_add]
    exact ⟨fun hlast => ⟨rfl, hlast⟩, fun hfits => hfits.2⟩
  · have hspan := span_past (w := w) (by omega) (by omega : 2 ≤ r) hpast
    have hle : lfbTables a ((pitch * r + 4096) % 2 ^ 32) ≤ 8 :=
      Nat.min_le_right ..
    constructor
    · intro hlast
      have hwin := hlast.2
      omega
    · intro hfits
      exact absurd hfits.1 hone

/-- The last pixel is mapped exactly for the framebuffers of `FbFits`,
where width and rows are positive as `int`s. -/
theorem last_iff_fits (ha : 0 < a) (ha' : a < 2 ^ 32) (hw : 0 < w)
    (hw31 : w < 2 ^ 31) (hpitch : w * 4 % 2 ^ 32 ≤ pitch)
    (hp32 : pitch < 2 ^ 32)
    (hr : r = if 2 ^ 25 < (pitch * h + 4096) % 2 ^ 32 then
      (2 ^ 25 - 4096) / pitch else h) (hr0 : 0 < r) (hr31 : r < 2 ^ 31) :
    (a + 4 * ((r - 1) * (pitch / 4) + w) ≤ 2 ^ 32
        ∧ a % 2 ^ 22 + 4 * ((r - 1) * (pitch / 4) + w)
          ≤ 2 ^ 22 * lfbTables a ((pitch * r + 4096) % 2 ^ 32))
      ↔ FbFits a pitch w h := by
  have hsign : ¬ 2 ^ 31 ≤ w := by omega
  have hsign' : ¬ (2 ^ 31 ≤ h ∧ (pitch * h + 4096) % 2 ^ 32 ≤ 2 ^ 25) := by
    rintro ⟨hh, hneed⟩
    rw [if_neg (by omega)] at hr
    omega
  unfold FbFits
  dsimp only
  rw [or_iff_right hsign, or_iff_right hsign']
  by_cases hwide : 2 ^ 30 ≤ w
  · -- one scanline is longer than the address space
    constructor
    · intro hlast
      have hend := hlast.1
      exfalso
      omega
    · split
      · intro hfits
        have hend := hfits.1
        exfalso
        omega
      · intro hfits
        have hend := hfits.2.1
        exfalso
        omega
  have hline : 4 * w ≤ pitch := by omega
  by_cases hexact : pitch * h + 4096 < 2 ^ 32
      ∨ 2 ^ 25 < (pitch * h + 4096) % 2 ^ 32
  · obtain ⟨hrows, hfit⟩ := rows_fit (by omega) hexact
    rw [← hr] at hrows
    rw [if_pos hexact, ← hrows]
    rw [← hrows] at hfit
    rw [last_iff_window ha' hline hr0 hfit]
  · have hkept : r = h := by
      rw [hr, if_neg (by omega)]
    rw [if_neg hexact]
    subst hkept
    exact last_iff_wrapped ha' hw hline hp32 hr0 (by omega) (by omega)

end Condition

-- =============================================================== the claim

/-- What an accepted call leaves is fully mapped exactly when it fits. -/
theorem Accepted.mapped_iff {L : VmmLayout} {v : Vmm} {s : Lfb}
    {addr pitch w h : UInt32} {r : Vmm × Lfb × Nat}
    (hr : Accepted L v s addr pitch w h r) (hready : v.ready = true) :
    FullyMapped L r.1 r.2.1 addr.toNat (lfbBytes pitch h).toNat
      ↔ FbFits addr.toNat pitch.toNat w.toNat h.toNat := by
  have hrows := lfbRows_toNat pitch h
  have hw32 := w.toNat_lt
  have hiff := fullyMapped_iff (L := L) (s := r.2.1) hready
    (lfbBytes pitch h).toNat hr.pitchPx
  rw [hr.fbp] at hiff
  rw [hr.vmm, hiff, hr.width, hr.height, toInt_eq, toInt_eq, lfbBytes_toNat]
  have hw := hr.w_pos
  have hr0 := hr.rows_pos
  by_cases hw31 : w.toNat < 2 ^ 31
  · by_cases hr31 : (lfbRows pitch h).toNat < 2 ^ 31
    · rw [← last_iff_fits hr.addr_pos addr.toNat_lt hw hw31 hr.pitch_ge
        pitch.toNat_lt hrows hr0 hr31, if_pos hw31, if_pos hr31]
      have hcast : (((lfbRows pitch h).toNat : Int) - 1)
          * (pitch.toNat / 4 : Nat) + w.toNat
          = (((lfbRows pitch h).toNat - 1) * (pitch.toNat / 4) + w.toNat
            : Nat) := by
        push_cast [Nat.cast_sub hr0]
        ring
      rw [hcast]
      generalize ((lfbRows pitch h).toNat - 1) * (pitch.toNat / 4)
        + w.toNat = span
      omega
    · -- a height that is negative as an `int`
      have hh : FbFits addr.toNat pitch.toNat w.toNat h.toNat := by
        refine Or.inr (Or.inl ?_)
        split at hrows
        · have hdiv := Nat.div_le_self (2 ^ 25 - 4096) pitch.toNat
          omega
        · omega
      have hlt := (lfbRows pitch h).toNat_lt
      rw [if_neg hr31]
      exact iff_of_true (Or.inr (Or.inl (by omega))) hh
  · rw [if_neg hw31]
    exact iff_of_true (Or.inl (by omega)) (Or.inl (by omega))

/-- Of the framebuffers that `lfb_init_fb` accepts with paging ready,
exactly those of `FbFits` are fully mapped. -/
theorem lfb_mapped_iff (L : VmmLayout) (v : Vmm) (s : Lfb)
    (addr pitch w h bpp : UInt32) (hready : v.ready = true)
    (hacc : (lfbInitFb L v s addr pitch w h bpp).2.2 = 1) :
    FullyMapped L (lfbInitFb L v s addr pitch w h bpp).1
        (lfbInitFb L v s addr pitch w h bpp).2.1 addr.toNat
        (lfbBytes pitch h).toNat
      ↔ FbFits addr.toNat pitch.toNat w.toNat h.toNat :=
  (accepted hacc).mapped_iff hready

/-- A call that passes the checks is accepted. -/
theorem lfbInitFb_ok {L : VmmLayout} {v : Vmm} {s : Lfb}
    {addr pitch w h bpp : UInt32} (hready : v.ready = true)
    (hrej : lfbRejects addr pitch w h bpp = false)
    (hrows : lfbRows pitch h ≠ 0)
    (htables : lfbTables addr.toNat (lfbBytes pitch h).toNat ≠ 0) :
    (lfbInitFb L v s addr pitch w h bpp).2.2 = 1 := by
  have hok : (vmmMapLfb L v addr.toNat (lfbBytes pitch h).toNat).2 = 1 := by
    rw [vmmMapLfb_eq (n := lfbTables addr.toNat (lfbBytes pitch h).toNat)
      hready addr.toNat_lt rfl, if_neg htables]
  unfold lfbInitFb
  dsimp only
  rw [hrej, if_neg Bool.false_ne_true, if_neg hrows, hok,
    if_neg Nat.one_ne_zero]

/-- The statics of lfb.c before the framebuffer is taken over. -/
def Lfb.zero : Lfb where
  fbp := 0
  W := 0
  H := 0
  pitchPx := 0
  active := false
  word := fun _ => 0
  log := []

/-- 1024 by 768 pixels at 0xFD000000, on a boundary. -/
theorem lfb_mapped_1024 :
    (vmmInit layoutAt2M fun _ => 0).ready = true
      ∧ (lfbInitFb layoutAt2M (vmmInit layoutAt2M fun _ => 0) Lfb.zero
          0xFD000000 4096 1024 768 32).2.2 = 1
      ∧ FullyMapped layoutAt2M
        (lfbInitFb layoutAt2M (vmmInit layoutAt2M fun _ => 0) Lfb.zero
          0xFD000000 4096 1024 768 32).1
        (lfbInitFb layoutAt2M (vmmInit layoutAt2M fun _ => 0) Lfb.zero
          0xFD000000 4096 1024 768 32).2.1 (0xFD000000 : UInt32).toNat
        (lfbBytes 4096 768).toNat := by
  have hready := (vmmInit_describes layoutAt2M fun _ => 0).1
  have hacc : (lfbInitFb layoutAt2M (vmmInit layoutAt2M fun _ => 0) Lfb.zero
      0xFD000000 4096 1024 768 32).2.2 = 1 :=
    lfbInitFb_ok hready (by decide) (by decide) (by decide)
  exact ⟨hready, hacc, (lfb_mapped_iff _ _ _ _ _ _ _ _ hready hacc).mpr
    (by decide)⟩

/-- 3840 by 2160 pixels, 1 MiB past a boundary: the length fits in
32 MiB, and the range would need a ninth table. -/
theorem lfb_unmapped_4k :
    (lfbInitFb layoutAt2M (vmmInit layoutAt2M fun _ => 0) Lfb.zero
        0xE0100000 15360 3840 2160 32).2.2 = 1
      ∧ ¬ FullyMapped layoutAt2M
        (lfbInitFb layoutAt2M (vmmInit layoutAt2M fun _ => 0) Lfb.zero
          0xE0100000 15360 3840 2160 32).1
        (lfbInitFb layoutAt2M (vmmInit layoutAt2M fun _ => 0) Lfb.zero
          0xE0100000 15360 3840 2160 32).2.1 (0xE0100000 : UInt32).toNat
        (lfbBytes 15360 2160).toNat := by
  have hready := (vmmInit_describes layoutAt2M fun _ => 0).1
  have hacc : (lfbInitFb layoutAt2M (vmmInit layoutAt2M fun _ => 0) Lfb.zero
      0xE0100000 15360 3840 2160 32).2.2 = 1 :=
    lfbInitFb_ok hready (by decide) (by decide) (by decide)
  refine ⟨hacc, ?_⟩
  rw [(accepted hacc).mapped_iff hready]
  decide

end Thuos.Video
