/-
Printed numbers read back.

The three printers divide, and print the numeral of what they are given,
behind the zeros that were asked for (`printUint_eq`, `itoaL_eq`). The two
parsers read each digit back as what it stands for, zeros in front add
nothing, and 32 bits are enough for the value. `print_int` negates in 64
bits and `itoa_l` goes around the overflow at the least number; both come
to the same magnitude (`magnitude_eq`).
-/
import Thuos.Gui.Calc
import Thuos.Shell.Proofs.Parsers

namespace Thuos.Shell

open Numeral Thuos.Core Gui

-- ============================================================= the printers

section Printers

theorem zero_chars (upper : Bool) : digitChar upper 0 = 0x30 := by
  cases upper with
  | false => decide
  | true => decide

/-- `print_uint` prints the numeral, padded with zeros. -/
theorem printUint_eq (v : UInt32) {base : Nat} (hb : 1 < base)
    (upper : Bool) (pad : Nat) :
    printUint v base upper pad
      = (List.replicate (pad - (numeral base v.toNat).length) 0
          ++ numeral base v.toNat).map (digitChar upper) := by
  have hv : v.toNat < base ^ 32 :=
    Nat.lt_of_lt_of_le v.toNat_lt (Nat.pow_le_pow_left hb 32)
  have hrev : (if v = 0 then [0x30]
      else divided (digitChar upper) base 32 v.toNat).reverse
        = (numeral base v.toNat).map (digitChar upper) := by
    by_cases hzero : v = 0
    · subst hzero
      simp [numeral, zero_chars]
    · have hne : v.toNat ≠ 0 := fun h => hzero (UInt32.toNat_inj.mp h)
      rw [if_neg hzero]
      exact divided_reverse _ hb hv hne
  have hlen := congrArg List.length hrev
  rw [List.length_reverse, List.length_map] at hlen
  unfold printUint
  dsimp only
  rw [List.reverse_append, hrev, hlen, List.reverse_replicate,
    List.map_append, List.map_replicate, zero_chars]

/-- The digits of a padded numeral are digits. -/
theorem padded_lt {base n k d : Nat} (hb : 1 < base)
    (hd : d ∈ List.replicate k 0 ++ numeral base n) : d < base := by
  rcases List.mem_append.mp hd with hd | hd
  · rw [List.eq_of_mem_replicate hd]
    exact Nat.zero_lt_of_lt hb
  · exact numeral_lt hb hd

theorem padded_value (base n k : Nat) :
    value base (List.replicate k 0 ++ numeral base n) = n := by
  rw [value_zeros, value_numeral]

theorem hexDigit_char (upper : Bool) {d : Nat} (hd : d < 16) :
    hexDigit (digitChar upper d) = some d := by
  have hall : ∀ d : Fin 16, hexDigit (digitChar upper d) = some d.val := by
    cases upper with
    | false => decide
    | true => decide
  exact hall ⟨d, hd⟩

theorem decDigit_char {d : Nat} (hd : d < 10) :
    decDigit (digitChar false d) = some d := by
  have hall : ∀ d : Fin 10, decDigit (digitChar false d) = some d.val := by
    decide
  exact hall ⟨d, hd⟩

theorem char_ne_zero {c : UInt8} {d : Nat} (h : hexDigit c = some d) :
    c ≠ 0 := by
  rintro rfl
  cases h

/-- A number printed to be read back. -/
def printed (v : UInt32) (base : Nat) (upper : Bool) (pad : Nat) : CStr :=
  ⟨(printUint v base upper pad).filter (· ≠ 0), by simp⟩

/-- No character of a printed number is a terminator. -/
theorem printed_chars (v : UInt32) {base : Nat} (hb : 1 < base)
    (hhex : base ≤ 16) (upper : Bool) (pad : Nat) :
    (printed v base upper pad).chars = printUint v base upper pad := by
  unfold printed
  rw [List.filter_eq_self]
  intro c hc
  rw [printUint_eq v hb] at hc
  obtain ⟨d, hd, rfl⟩ := List.mem_map.mp hc
  have hlt := padded_lt hb hd
  have hne := char_ne_zero (hexDigit_char upper (show d < 16 by omega))
  exact decide_eq_true hne

end Printers

-- ============================================================== reading back

section ReadBack

variable (v : UInt32)

/-- The digits that `parse_hex` finds in a printed number. -/
theorem printed_hexDigits (upper : Bool) (pad : Nat) :
    digits hexDigit (printUint v 16 upper pad)
      = some (List.replicate (pad - (numeral 16 v.toNat).length) 0
          ++ numeral 16 v.toNat) := by
  rw [printUint_eq v (by decide)]
  apply digits_map
  intro d hd
  exact hexDigit_char upper (padded_lt (by decide) hd)

/-- The text that `parse_hex` reads as `v`. -/
theorem parseHex_of_digits {s : CStr} {k : Nat}
    (h : digits hexDigit (skip0x s.chars)
      = some (List.replicate k 0 ++ numeral 16 v.toNat)) :
    parseHex s = some (v, true) := by
  have hne : List.replicate k 0 ++ numeral 16 v.toNat ≠ [] := by
    simp [numeral_ne_nil]
  rw [parseHex_eq, h, Option.map_some, padded_value, UInt32.ofNat_toNat]
  simpa using hne

/-- Without padding, a printed number starts with a zero only if it is
`0`. -/
theorem printed_head {base : Nat} (hb : 1 < base) (hhex : base ≤ 16)
    (upper : Bool)
    (h : (printUint v base upper 0).head? = some 0x30) :
    printUint v base upper 0 = [0x30] := by
  rw [printUint_eq v hb, Nat.zero_sub, List.replicate_zero,
    List.nil_append] at h ⊢
  cases hnum : numeral base v.toNat with
  | nil => exact absurd hnum (numeral_ne_nil base _)
  | cons d ds =>
      rw [hnum, List.map_cons, List.head?_cons] at h
      have hlt : d < base := by
        apply numeral_lt hb (n := v.toNat)
        rw [hnum]
        exact List.mem_cons_self
      have hd : d = 0 := by
        have hread := hexDigit_char upper (show d < 16 by omega)
        rw [Option.some.inj h] at hread
        exact (Option.some.inj hread).symm
      have hzero : numeral base v.toNat = [0] := by
        apply numeral_head
        rw [hnum, hd]
        rfl
      rw [hnum] at hzero
      rw [hzero, List.map_singleton, zero_chars]

/-- Behind its first character, a printed number has no `x`. -/
theorem skip0x_printed (upper : Bool) :
    skip0x (printUint v 16 upper 0) = printUint v 16 upper 0 := by
  cases hout : printUint v 16 upper 0 with
  | nil => rfl
  | cons c s =>
      cases s with
      | nil => rfl
      | cons x s =>
          apply if_neg
          rintro ⟨rfl, -⟩
          have hzero := printed_head v (by decide) (Nat.le_refl 16) upper
            (by rw [hout]; rfl)
          rw [hout] at hzero
          cases hzero

end ReadBack

-- ============================================================ signed numbers

/-- What the digits of a text denote, with a minus in front or without. -/
def decimalInt (s : List UInt8) : Option Int :=
  if s.head? = some 0x2D then
    ((digits decDigit s.tail).filter (· ≠ [])).map fun ds => -(value 10 ds : Int)
  else ((digits decDigit s).filter (· ≠ [])).map fun ds => (value 10 ds : Int)

section Signed

/-- The magnitudes that the two printers of signed numbers compute. -/
theorem magnitude_eq {v : Int32} (h : v < 0) :
    (UInt32.ofInt (-v.toInt)).toNat = (-v.toInt).toNat
      ∧ ((-(v + 1)).toUInt32 + 1) = UInt32.ofInt (-v.toInt) := by
  have hneg : v.toInt < 0 := by
    have := Int32.lt_iff_toInt_lt.mp h
    simpa using this
  have hlow : -2 ^ 31 ≤ v.toInt := v.le_toInt
  have hmag : (UInt32.ofInt (-v.toInt)).toNat = (-v.toInt).toNat := by
    show ((-v.toInt) % 2 ^ 32).toNat % 2 ^ 32 = _
    omega
  refine ⟨hmag, ?_⟩
  apply UInt32.toNat_inj.mp
  rw [hmag, UInt32.toNat_add]
  have hbits : (-(v + 1)).toUInt32.toNat = (-(v.toInt + 1)).toNat := by
    have hint : (-(v + 1)).toInt = -(v.toInt + 1) := by
      rw [Int32.toInt_neg, Int32.toInt_add]
      show ((-((v.toInt + 1).bmod (2 ^ 32))).bmod (2 ^ 32)) = _
      simp only [Int.bmod]
      omega
    have hnat : ((-(v + 1)).toUInt32.toNat : Int)
        = (-(v + 1)).toInt % 2 ^ 32 := by
      show ((-(v + 1)).toBitVec.toNat : Int) = (-(v + 1)).toBitVec.toInt % _
      rw [BitVec.toInt_eq_toNat_bmod]
      simp only [Int.bmod]
      have := (-(v + 1)).toBitVec.isLt
      omega
    omega
  rw [hbits]
  show ((-(v.toInt + 1)).toNat + 1) % 2 ^ 32 = _
  omega

/-- A digit, as `itoa_l` has it. -/
theorem decimal_char {d : Nat} (hd : d < 10) :
    (0x30 : UInt8) + UInt8.ofNat d = digitChar false d := by
  have hall : ∀ d : Fin 10,
      (0x30 : UInt8) + UInt8.ofNat d.val = digitChar false d.val := by decide
  exact hall ⟨d, hd⟩

/-- The loop of `itoa_l`, turned around, prints the numeral. -/
theorem itoa_digits (u : UInt32) :
    (if u = 0 then [0x30]
      else divided (fun d => (0x30 : UInt8) + UInt8.ofNat d) 10 24
        u.toNat).reverse = printUint u 10 false 0 := by
  have hu : u.toNat < 10 ^ 24 := Nat.lt_trans u.toNat_lt (by decide)
  rw [printUint_eq u (by decide), Nat.zero_sub, List.replicate_zero,
    List.nil_append]
  by_cases hzero : u = 0
  · subst hzero
    simp [numeral, zero_chars]
  · have hne : u.toNat ≠ 0 := fun h => hzero (UInt32.toNat_inj.mp h)
    rw [if_neg hzero, divided_reverse _ (by decide) hu hne]
    apply List.map_congr_left
    intro d hd
    exact decimal_char (numeral_lt (by decide) hd)

/-- The two printers of signed numbers print the same. -/
theorem itoaL_eq (v : Int32) : itoaL v = printInt v := by
  unfold itoaL printInt
  dsimp only
  by_cases hneg : v < 0
  · rw [if_pos hneg, if_pos hneg, if_pos hneg, (magnitude_eq hneg).2,
      itoa_digits]
    rfl
  · rw [if_neg hneg, if_neg hneg, if_neg hneg, itoa_digits]
    rfl

theorem printed_decDigits (u : UInt32) :
    digits decDigit (printUint u 10 false 0)
      = some (numeral 10 u.toNat) := by
  rw [printUint_eq u (by decide), Nat.zero_sub, List.replicate_zero,
    List.nil_append]
  apply digits_map
  intro d hd
  exact decDigit_char (numeral_lt (by decide) hd)

/-- No digit is a minus. -/
theorem printed_no_minus (u : UInt32) :
    (printUint u 10 false 0).head? ≠ some 0x2D := by
  intro hhead
  have hdigits := printed_decDigits u
  cases hout : printUint u 10 false 0 with
  | nil =>
      rw [hout] at hhead
      cases hhead
  | cons c s =>
      rw [hout] at hhead hdigits
      obtain rfl : c = 0x2D := Option.some.inj hhead
      have hnone : decDigit 0x2D = none := rfl
      simp [digits, hnone] at hdigits

theorem decimal_of_digits {s : List UInt8} {n : Nat}
    (h : digits decDigit s = some (numeral 10 n)) :
    ((digits decDigit s).filter (· ≠ [])).map (value 10) = some n := by
  have hne := numeral_ne_nil 10 n
  rw [h, Option.filter_some, if_pos (decide_eq_true hne), Option.map_some,
    value_numeral]

/-- What `print_int` prints denotes the number. -/
theorem printInt_denotes (v : Int32) : decimalInt (printInt v) = some v.toInt := by
  unfold printInt decimalInt
  by_cases hneg : v < 0
  · have hmag := (magnitude_eq hneg).1
    have hlt : v.toInt < 0 := by simpa using Int32.lt_iff_toInt_lt.mp hneg
    have hread := decimal_of_digits
      (printed_decDigits (UInt32.ofInt (-v.toInt)))
    obtain ⟨ds, hds, hval⟩ := Option.map_eq_some_iff.mp hread
    rw [if_pos hneg, List.head?_cons, if_pos rfl, List.tail_cons, hds,
      Option.map_some, hval, hmag]
    congr 1
    omega
  · have hle : 0 ≤ v.toInt := by
      have hnot := mt Int32.lt_iff_toInt_lt.mpr hneg
      simpa using hnot
    have hmag : (v.toUInt32.toNat : Int) = v.toInt := by
      show (v.toBitVec.toNat : Int) = v.toBitVec.toInt
      have hle : 0 ≤ v.toBitVec.toInt := hle
      rw [BitVec.toInt_eq_toNat_bmod] at hle ⊢
      simp only [Int.bmod] at hle ⊢
      have hlt := v.toBitVec.isLt
      omega
    have hread := decimal_of_digits (printed_decDigits v.toUInt32)
    obtain ⟨ds, hds, hval⟩ := Option.map_eq_some_iff.mp hread
    rw [if_neg hneg, if_neg (printed_no_minus _), hds, Option.map_some, hval,
      hmag]

end Signed

-- ================================================================ the result

section Formats

theorem parseUint_of_digits {s : CStr} {v : UInt32}
    (h : digits decDigit s.chars = some (numeral 10 v.toNat)) :
    parseUint s = (v, true) := by
  have hne := numeral_ne_nil 10 v.toNat
  rw [parseUint_eq, leading_eq h, value_numeral, UInt32.ofNat_toNat]
  simpa using hne

/-- `0x%08x`: eight digits, read back. -/
theorem readBack_pointer (v : UInt32) :
    ∃ s : CStr, kprintf (CStr.ofString "0x%08x") [.word v] = some s.chars
      ∧ parseHex s = some (v, true) ∧ s.length = 10 := by
  have hchars := printed_chars v (by decide) (Nat.le_refl 16) false 8
  have hprint : kprintf (CStr.ofString "0x%08x") [.word v]
      = some ([0x30, 0x78] ++ printUint v 16 false 8) := by
    show some (0x30 :: 0x78 :: (printUint v 16 false 8 ++ [])) = _
    rw [List.append_nil]
    rfl
  refine ⟨⟨[0x30, 0x78] ++ (printed v 16 false 8).chars, ?_⟩, ?_, ?_, ?_⟩
  · have hno := (printed v 16 false 8).noNul
    simpa using hno
  · rw [hprint, ← hchars]
  · apply parseHex_of_digits v
    rw [← printed_hexDigits v false 8, ← hchars]
    rfl
  · have hlen := numeral_length_le (b := 16) (n := v.toNat) (k := 8)
      (by decide) (by decide) v.toNat_lt
    show ([0x30, 0x78] ++ (printed v 16 false 8).chars).length = 10
    rw [hchars, printUint_eq v (by decide)]
    simp
    omega

/-- `%x` and `%X`. -/
theorem readBack_hex (v : UInt32) (upper : Bool) :
    ∃ s : CStr,
      kprintf (CStr.ofString (if upper then "%X" else "%x")) [.word v]
          = some s.chars
        ∧ parseHex s = some (v, true)
        ∧ (s.chars.head? = some 0x30 → s.chars = [0x30]) := by
  have hchars := printed_chars v (by decide) (Nat.le_refl 16) upper 0
  have hprint :
      kprintf (CStr.ofString (if upper then "%X" else "%x")) [.word v]
        = some (printUint v 16 upper 0) := by
    cases upper with
    | false =>
        show some (printUint v 16 false 0 ++ []) = _
        rw [List.append_nil]
    | true =>
        show some (printUint v 16 true 0 ++ []) = _
        rw [List.append_nil]
  refine ⟨printed v 16 upper 0, ?_, ?_, ?_⟩
  · rw [hprint, hchars]
  · apply parseHex_of_digits v
    rw [← printed_hexDigits v upper 0, ← skip0x_printed v upper, ← hchars]
  · rw [hchars]
    exact printed_head v (by decide) (Nat.le_refl 16) upper

/-- `%u`. -/
theorem readBack_uint (v : UInt32) :
    ∃ s : CStr, kprintf (CStr.ofString "%u") [.word v] = some s.chars
      ∧ parseUint s = (v, true)
      ∧ (s.chars.head? = some 0x30 → s.chars = [0x30]) := by
  have hchars := printed_chars v (by decide) (by decide : 10 ≤ 16) false 0
  have hprint : kprintf (CStr.ofString "%u") [.word v]
      = some (printUint v 10 false 0) := by
    show some (printUint v 10 false 0 ++ []) = _
    rw [List.append_nil]
  refine ⟨printed v 10 false 0, ?_, ?_, ?_⟩
  · rw [hprint, hchars]
  · apply parseUint_of_digits
    rw [hchars]
    exact printed_decDigits v
  · rw [hchars]
    exact printed_head v (by decide) (by decide) false

/-- `%d`. -/
theorem readBack_int (v : Int32) :
    kprintf (CStr.ofString "%d") [.word v.toUInt32] = some (itoaL v)
      ∧ decimalInt (itoaL v) = some v.toInt := by
  rw [itoaL_eq]
  refine ⟨?_, printInt_denotes v⟩
  show some (printInt v.toUInt32.toInt32 ++ []) = _
  rw [List.append_nil]
  rfl

/-- For every 32-bit number, what is printed of it is read back as it, and
the two printers of signed numbers agree on what denotes it. -/
theorem printed_numbers_read_back (v : UInt32) (w : Int32) :
    (∃ s : CStr, kprintf (CStr.ofString "0x%08x") [.word v] = some s.chars
      ∧ parseHex s = some (v, true) ∧ s.length = 10)
    ∧ (∀ upper : Bool, ∃ s : CStr,
      kprintf (CStr.ofString (if upper then "%X" else "%x")) [.word v]
          = some s.chars
        ∧ parseHex s = some (v, true)
        ∧ (s.chars.head? = some 0x30 → s.chars = [0x30]))
    ∧ (∃ s : CStr, kprintf (CStr.ofString "%u") [.word v] = some s.chars
      ∧ parseUint s = (v, true)
      ∧ (s.chars.head? = some 0x30 → s.chars = [0x30]))
    ∧ kprintf (CStr.ofString "%d") [.word w.toUInt32] = some (itoaL w)
    ∧ decimalInt (itoaL w) = some w.toInt :=
  ⟨readBack_pointer v, readBack_hex v, readBack_uint v, readBack_int w⟩

end Formats

end Thuos.Shell
