/-
What the two parsers compute.

Both read digits with an accumulator of 32 bits, so what they return is
the value of the digits modulo `2 ^ 32` (`parseHex_eq`, `parseUint_eq`).
They differ in what they do at a character that is no digit: `parse_hex`
refuses the text, `parse_uint` stops there.
-/
import Thuos.Shell.Parse

namespace Thuos.Shell

open Numeral

/-- The digits of a text, if all its characters are digits. -/
def digits (digit : UInt8 → Option Nat) : List UInt8 → Option (List Nat)
  | [] => some []
  | c :: s => (digit c).bind fun d => (digits digit s).map (d :: ·)

/-- The digits that a text starts with. -/
def leading (digit : UInt8 → Option Nat) : List UInt8 → List Nat
  | [] => []
  | c :: s =>
      match digit c with
      | some d => d :: leading digit s
      | none => []

section Texts

variable {digit : UInt8 → Option Nat} {s : List UInt8} {ds : List Nat}

theorem digits_nil : digits digit s = some [] ↔ s = [] := by
  cases s with
  | nil => simp [digits]
  | cons c s =>
      unfold digits
      cases hc : digit c with
      | none => simp
      | some d => cases digits digit s <;> simp

/-- A text of digits starts with all of them. -/
theorem leading_eq (h : digits digit s = some ds) :
    leading digit s = ds := by
  induction s generalizing ds with
  | nil =>
      obtain rfl : [] = ds := Option.some.inj h
      rfl
  | cons c s ih =>
      unfold digits at h
      unfold leading
      cases hc : digit c with
      | none => simp [hc] at h
      | some d =>
          cases hs : digits digit s with
          | none => simp [hc, hs] at h
          | some es =>
              have hds : d :: es = ds := by simpa [hc, hs] using h
              rw [← hds]
              exact congrArg (d :: ·) (ih hs)

/-- Characters for digits, read back. -/
theorem digits_map {f : Nat → UInt8} (h : ∀ d ∈ ds, digit (f d) = some d) :
    digits digit (ds.map f) = some ds := by
  induction ds with
  | nil => rfl
  | cons d ds ih =>
      obtain ⟨hd, hds⟩ := List.forall_mem_cons.mp h
      simp [digits, hd, ih hds]

end Texts

-- =============================================================== parse_hex

/-- A digit is below 16. -/
theorem hexDigit_lt {c : UInt8} {d : Nat} (h : hexDigit c = some d) :
    d < 16 := by
  have hc := c.toNat_lt
  unfold hexDigit at h
  simp only [UInt8.le_iff_toNat_le, UInt8.reduceToNat] at h
  split at h
  · obtain rfl := Option.some.inj h
    omega
  split at h
  · obtain rfl := Option.some.inj h
    omega
  split at h
  · obtain rfl := Option.some.inj h
    omega
  · cases h

/-- The shift drops what does not fit. -/
theorem hex_step (v : UInt32) {d : Nat} (hd : d < 16) :
    (v <<< 4 ||| UInt32.ofNat d).toNat = (v.toNat * 16 + d) % 2 ^ 32 := by
  have hv := v.toNat_lt
  have hshift : (v <<< 4).toNat = (v.toNat % 2 ^ 28) <<< 4 := by
    rw [UInt32.toNat_shiftLeft]
    show v.toNat <<< 4 % 2 ^ 32 = _
    rw [Nat.shiftLeft_eq, Nat.shiftLeft_eq]
    omega
  have hdigit : (UInt32.ofNat d).toNat = d :=
    UInt32.toNat_ofNat_of_lt' (Nat.lt_trans hd (by decide))
  rw [UInt32.toNat_or, hshift, hdigit,
    ← Nat.shiftLeft_add_eq_or_of_lt (by omega), Nat.shiftLeft_eq]
  omega

theorem hexLoop_eq (s : List UInt8) (v : UInt32) (any : Bool) :
    hexLoop s v any = (digits hexDigit s).map fun ds =>
      (UInt32.ofNat (ds.foldl (fun v d => v * 16 + d) v.toNat),
        any || !s.isEmpty) := by
  induction s generalizing v any with
  | nil => simp [hexLoop, digits]
  | cons c s ih =>
      unfold hexLoop digits
      cases hc : hexDigit c with
      | none => rfl
      | some d =>
          have hstep := hex_step v (hexDigit_lt hc)
          rw [Option.bind_some, ih, Option.bind_some, Option.map_map]
          congr 1
          funext ds
          have hwrap := foldl_wrap 16 (2 ^ 32) ds
          refine Prod.ext (UInt32.toNat_inj.mp ?_) (by simp)
          show _ % 2 ^ 32 = _ % 2 ^ 32
          rw [hstep, ← hwrap, Nat.mod_mod, hwrap]
          rfl

/-- `parse_hex` takes every text of digits, and its value modulo
`2 ^ 32`. -/
theorem parseHex_eq (s : CStr) :
    parseHex s = (digits hexDigit (skip0x s.chars)).map fun ds =>
      (UInt32.ofNat (value 16 ds), !ds.isEmpty) := by
  unfold parseHex
  rw [hexLoop_eq]
  cases hds : digits hexDigit (skip0x s.chars) with
  | none => rfl
  | some ds =>
      have hempty : (skip0x s.chars).isEmpty = ds.isEmpty := by
        cases ds with
        | nil =>
            rw [digits_nil.mp hds]
            rfl
        | cons d ds =>
            cases htext : skip0x s.chars with
            | nil =>
                rw [htext] at hds
                cases hds
            | cons c t => rfl
      simp [hempty, value]

-- ============================================================== parse_uint

theorem decDigit_lt {c : UInt8} {d : Nat} (h : decDigit c = some d) :
    d < 10 := by
  unfold decDigit at h
  simp only [UInt8.le_iff_toNat_le, UInt8.reduceToNat] at h
  split at h
  · obtain rfl := Option.some.inj h
    omega
  · cases h

theorem uint_step (v : UInt32) {d : Nat} (hd : d < 10) :
    (v * 10 + UInt32.ofNat d).toNat = (v.toNat * 10 + d) % 2 ^ 32 := by
  have hdigit : (UInt32.ofNat d).toNat = d :=
    UInt32.toNat_ofNat_of_lt' (Nat.lt_trans hd (by decide))
  rw [UInt32.toNat_add, UInt32.toNat_mul, hdigit]
  show (v.toNat * 10 % 2 ^ 32 + d) % 2 ^ 32 = _
  omega

theorem uintLoop_eq (s : List UInt8) (v : UInt32) (any : Bool) :
    uintLoop s v any
      = (UInt32.ofNat ((leading decDigit s).foldl (fun v d => v * 10 + d)
          v.toNat), any || !(leading decDigit s).isEmpty) := by
  induction s generalizing v any with
  | nil => simp [uintLoop, leading]
  | cons c s ih =>
      unfold uintLoop leading
      cases hc : decDigit c with
      | none => simp
      | some d =>
          have hstep := uint_step v (decDigit_lt hc)
          have hwrap := foldl_wrap 10 (2 ^ 32) (leading decDigit s)
          dsimp only
          rw [ih]
          refine Prod.ext (UInt32.toNat_inj.mp ?_) (by simp)
          show _ % 2 ^ 32 = _ % 2 ^ 32
          rw [hstep, ← hwrap, Nat.mod_mod, hwrap]
          rfl

/-- `parse_uint` takes every text that starts with a digit, and the value
of its leading digits modulo `2 ^ 32`. -/
theorem parseUint_eq (s : CStr) :
    parseUint s = (UInt32.ofNat (value 10 (leading decDigit s.chars)),
      !(leading decDigit s.chars).isEmpty) := by
  unfold parseUint
  rw [uintLoop_eq]
  rfl

end Thuos.Shell
