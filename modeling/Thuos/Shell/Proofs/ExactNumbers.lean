/-
When a number on the command line is the number that the command acts on.

`HexNumber` and `DecNumber` say which number a text denotes. `parse_hex`
goes wrong exactly on the texts that denote a number of more than 32 bits:
it keeps the low ones (`hexExact_iff`). `parse_uint` goes wrong there too,
and on every text that starts with a digit and goes on with something
else, where it takes the start (`uintExact_iff`). Elsewhere the commands
pass on what was typed, or print their usage.
-/
import Thuos.Shell.Proofs.Parsers

namespace Thuos.Shell

open Numeral Thuos.Core Mm

/-- Behind an optional `0x`, the text is a hexadecimal numeral of `n`. -/
def HexNumber (s : CStr) (n : Nat) : Prop :=
  ∃ ds, digits hexDigit (skip0x s.chars) = some ds ∧ ds ≠ []
    ∧ value 16 ds = n

/-- The text is a decimal numeral of `n`. -/
def DecNumber (s : CStr) (n : Nat) : Prop :=
  ∃ ds, digits decDigit s.chars = some ds ∧ ds ≠ [] ∧ value 10 ds = n

/-- `parse_hex` takes the text exactly where it denotes a 32-bit number,
and gives that. -/
def HexExact (s : CStr) : Prop :=
  ((∃ v, parseHex s = some (v, true)) ↔ ∃ n < 2 ^ 32, HexNumber s n)
    ∧ ∀ v, parseHex s = some (v, true) → HexNumber s v.toNat

/-- `parse_uint` likewise. -/
def UintExact (s : CStr) : Prop :=
  ((parseUint s).2 = true ↔ ∃ n < 2 ^ 32, DecNumber s n)
    ∧ ((parseUint s).2 = true → DecNumber s (parseUint s).1.toNat)

-- ============================================================== the parsers

section Parsers

variable {s : CStr} {n m : Nat}

theorem HexNumber.unique (h : HexNumber s n) (h' : HexNumber s m) :
    n = m := by
  obtain ⟨ds, hds, -, rfl⟩ := h
  obtain ⟨es, hes, -, rfl⟩ := h'
  obtain rfl : ds = es := Option.some.inj (hds.symm.trans hes)
  rfl

theorem DecNumber.unique (h : DecNumber s n) (h' : DecNumber s m) :
    n = m := by
  obtain ⟨ds, hds, -, rfl⟩ := h
  obtain ⟨es, hes, -, rfl⟩ := h'
  obtain rfl : ds = es := Option.some.inj (hds.symm.trans hes)
  rfl

/-- A hexadecimal numeral of any size is taken. -/
theorem parseHex_of_number (h : HexNumber s n) :
    parseHex s = some (UInt32.ofNat n, true) := by
  obtain ⟨ds, hds, hne, rfl⟩ := h
  rw [parseHex_eq, hds]
  simp [hne]

/-- Nothing else is. -/
theorem number_of_parseHex {v : UInt32} (h : parseHex s = some (v, true)) :
    ∃ n, HexNumber s n ∧ v.toNat = n % 2 ^ 32 := by
  rw [parseHex_eq] at h
  obtain ⟨ds, hds, hv⟩ := Option.map_eq_some_iff.mp h
  obtain ⟨rfl, hne⟩ := Prod.mk.inj hv
  refine ⟨value 16 ds, ⟨ds, hds, ?_, rfl⟩, rfl⟩
  simpa using hne

/-- The text denotes a number of more than 32 bits. -/
def HexOverflows (s : CStr) : Prop := ∃ n, 2 ^ 32 ≤ n ∧ HexNumber s n

theorem hexExact_iff (s : CStr) : HexExact s ↔ ¬ HexOverflows s := by
  constructor
  · rintro ⟨hiff, -⟩ ⟨n, hn, hnum⟩
    obtain ⟨m, hm, hnum'⟩ := hiff.mp ⟨_, parseHex_of_number hnum⟩
    have hsame := hnum.unique hnum'
    omega
  · intro hfits
    have hsmall : ∀ n, HexNumber s n → n < 2 ^ 32 := by
      intro n hnum
      by_contra hn
      exact hfits ⟨n, Nat.not_lt.mp hn, hnum⟩
    refine ⟨⟨?_, ?_⟩, ?_⟩
    · rintro ⟨v, hv⟩
      obtain ⟨n, hnum, -⟩ := number_of_parseHex hv
      exact ⟨n, hsmall n hnum, hnum⟩
    · rintro ⟨n, -, hnum⟩
      exact ⟨_, parseHex_of_number hnum⟩
    · intro v hv
      obtain ⟨n, hnum, hvn⟩ := number_of_parseHex hv
      rw [hvn, Nat.mod_eq_of_lt (hsmall n hnum)]
      exact hnum

/-- A text without a digit in front, or a decimal numeral of at most 32
bits. -/
def UintClean (s : CStr) : Prop :=
  leading decDigit s.chars = [] ∨ ∃ n < 2 ^ 32, DecNumber s n

theorem parseUint_of_number (h : DecNumber s n) :
    parseUint s = (UInt32.ofNat n, true) := by
  obtain ⟨ds, hds, hne, rfl⟩ := h
  rw [parseUint_eq, leading_eq hds]
  simp [hne]

/-- A digit in front is enough. -/
theorem parseUint_true_iff (s : CStr) :
    (parseUint s).2 = true ↔ leading decDigit s.chars ≠ [] := by
  rw [parseUint_eq]
  simp

theorem DecNumber.leading_ne (h : DecNumber s n) :
    leading decDigit s.chars ≠ [] := by
  obtain ⟨ds, hds, hne, -⟩ := h
  rw [leading_eq hds]
  exact hne

theorem uintExact_iff (s : CStr) : UintExact s ↔ UintClean s := by
  constructor
  · rintro ⟨hiff, -⟩
    by_cases hlead : leading decDigit s.chars = []
    · exact Or.inl hlead
    · exact Or.inr (hiff.mp ((parseUint_true_iff s).mpr hlead))
  · rintro (hlead | ⟨n, hn, hnum⟩)
    · have hrefused : ¬ (parseUint s).2 = true := by
        rw [parseUint_true_iff]
        exact not_not.mpr hlead
      refine ⟨⟨fun h => absurd h hrefused, ?_⟩, fun h => absurd h hrefused⟩
      rintro ⟨n, -, hnum⟩
      exact absurd hlead hnum.leading_ne
    · have htaken := parseUint_of_number hnum
      have hval : (UInt32.ofNat n).toNat = n := UInt32.toNat_ofNat_of_lt' hn
      refine ⟨⟨fun _ => ⟨n, hn, hnum⟩, fun _ => by rw [htaken]⟩, fun _ => ?_⟩
      rw [htaken, hval]
      exact hnum

end Parsers

-- ============================================================= the commands

/-- `cmd_freepage` frees the frame whose address was typed, or none. -/
def FreepageExact (s : CStr) : Prop :=
  ∀ pmm, (∃ n < 2 ^ 32, HexNumber s n
      ∧ (cmdFreepage pmm s).1 = (pmmFreeFrame pmm n).1)
    ∨ ((∀ n < 2 ^ 32, ¬ HexNumber s n) ∧ (cmdFreepage pmm s).1 = pmm)

/-- `cmd_kfree` frees the block whose address was typed, or none. -/
def KfreeExact (s : CStr) : Prop :=
  ∀ fuel kheap, (∃ n < 2 ^ 32, HexNumber s n
      ∧ (cmdKfree fuel kheap s).map Prod.fst = kfree fuel kheap n)
    ∨ ((∀ n < 2 ^ 32, ¬ HexNumber s n)
      ∧ (cmdKfree fuel kheap s).map Prod.fst = some kheap)

/-- `cmd_kmalloc` allocates the number of bytes that was typed, or
nothing. -/
def KmallocExact (s : CStr) : Prop :=
  ∀ fuel kheap, (∃ n < 2 ^ 32, n ≠ 0 ∧ DecNumber s n
      ∧ (cmdKmalloc fuel kheap s).map Prod.fst
        = (kmalloc fuel kheap n).map Prod.fst)
    ∨ ((∀ n < 2 ^ 32, DecNumber s n → n = 0)
      ∧ (cmdKmalloc fuel kheap s).map Prod.fst = some kheap)

section Commands

variable {s : CStr}

/-- A text that is taken denotes a 32-bit number, or overflows. -/
theorem hex_cases (h : ¬ HexOverflows s) :
    (∃ v, parseHex s = some (v, true) ∧ HexNumber s v.toNat)
      ∨ ((∀ n < 2 ^ 32, ¬ HexNumber s n)
        ∧ ∀ v, parseHex s ≠ some (v, true)) := by
  obtain ⟨hiff, hval⟩ := (hexExact_iff s).mpr h
  by_cases htaken : ∃ v, parseHex s = some (v, true)
  · obtain ⟨v, hv⟩ := htaken
    exact Or.inl ⟨v, hv, hval v hv⟩
  · refine Or.inr ⟨fun n hn hnum => htaken (hiff.mpr ⟨n, hn, hnum⟩), ?_⟩
    intro v hv
    exact htaken ⟨v, hv⟩

theorem freepage_exact (h : ¬ HexOverflows s) : FreepageExact s := by
  intro pmm
  rcases hex_cases h with ⟨v, hv, hnum⟩ | ⟨hno, hrefused⟩
  · refine Or.inl ⟨v.toNat, v.toNat_lt, hnum, ?_⟩
    unfold cmdFreepage
    rw [hv]
  · refine Or.inr ⟨hno, ?_⟩
    unfold cmdFreepage
    split
    · next v hv => exact absurd hv (hrefused v)
    · rfl

theorem kfree_exact (h : ¬ HexOverflows s) : KfreeExact s := by
  intro fuel kheap
  rcases hex_cases h with ⟨v, hv, hnum⟩ | ⟨hno, hrefused⟩
  · refine Or.inl ⟨v.toNat, v.toNat_lt, hnum, ?_⟩
    unfold cmdKfree
    rw [hv]
    simp [Function.comp_def]
  · refine Or.inr ⟨hno, ?_⟩
    unfold cmdKfree
    split
    · next v hv => exact absurd hv (hrefused v)
    · rfl

theorem kmalloc_exact (h : UintClean s) : KmallocExact s := by
  intro fuel kheap
  have hzero : UInt32.toNat 0 = 0 := rfl
  rcases h with hlead | ⟨n, hn, hnum⟩
  · have hrefused := (parseUint_true_iff s).not.mpr (not_not.mpr hlead)
    refine Or.inr ⟨fun n _ hnum => absurd hlead hnum.leading_ne, ?_⟩
    unfold cmdKmalloc
    split
    · next v hv =>
        rw [hv] at hrefused
        exact absurd rfl hrefused
    · rfl
  · have hval : (UInt32.ofNat n).toNat = n := UInt32.toNat_ofNat_of_lt' hn
    unfold cmdKmalloc
    rw [parseUint_of_number hnum]
    dsimp only
    by_cases hn0 : n = 0
    · refine Or.inr ⟨fun m _ hnum' => (hnum'.unique hnum).trans hn0, ?_⟩
      rw [hn0]
      rfl
    · have hne : ¬ UInt32.ofNat n = 0 := by
        intro heq
        apply hn0
        rw [← hval, heq]
        exact hzero
      refine Or.inl ⟨n, hn, hn0, hnum, ?_⟩
      rw [if_neg hne, hval, Option.map_map]
      congr 1
      funext p
      obtain ⟨kheap', q⟩ := p
      dsimp only [Function.comp_apply]
      split
      · rfl
      · rfl

end Commands

-- ================================================================ the result

/-- For every text: the parsers are exact on it exactly when it is no
numeral of a larger number, and for `parse_uint` no text that only starts
with a digit; and then the commands act on the number typed. -/
theorem number_arguments_iff (s : CStr) :
    (HexExact s ↔ ¬ HexOverflows s) ∧ (UintExact s ↔ UintClean s)
      ∧ (¬ HexOverflows s → FreepageExact s ∧ KfreeExact s)
      ∧ (UintClean s → KmallocExact s) :=
  ⟨hexExact_iff s, uintExact_iff s,
    fun h => ⟨freepage_exact h, kfree_exact h⟩, kmalloc_exact⟩

/-- `0x100001000` is taken as the address 0x1000, `12x` as the number 12,
and `4294967297` as 1. -/
theorem number_arguments_dropped :
    parseHex (CStr.ofString "0x100001000") = some (0x1000, true)
      ∧ HexNumber (CStr.ofString "0x100001000") 0x100001000
      ∧ ¬ HexExact (CStr.ofString "0x100001000")
      ∧ parseUint (CStr.ofString "12x") = (12, true)
      ∧ ¬ UintExact (CStr.ofString "12x")
      ∧ parseUint (CStr.ofString "4294967297") = (1, true)
      ∧ ¬ UintExact (CStr.ofString "4294967297") := by
  have hbig : HexNumber (CStr.ofString "0x100001000") 0x100001000 :=
    ⟨[1, 0, 0, 0, 0, 1, 0, 0, 0], by decide, by decide, by decide⟩
  have hdec : DecNumber (CStr.ofString "4294967297") 4294967297 :=
    ⟨[4, 2, 9, 4, 9, 6, 7, 2, 9, 7], by decide, by decide, by decide⟩
  refine ⟨by decide, hbig, ?_, by decide, ?_, by decide, ?_⟩
  · rw [hexExact_iff]
    exact not_not.mpr ⟨_, by decide, hbig⟩
  · rw [uintExact_iff]
    rintro (hlead | ⟨n, -, ds, hds, -⟩)
    · exact absurd hlead (by decide)
    · exact absurd hds (by simp [show digits decDigit
        (CStr.ofString "12x").chars = none by decide])
  · rw [uintExact_iff]
    rintro (hlead | ⟨n, hn, hnum⟩)
    · exact absurd hlead (by decide)
    · have hsame := hnum.unique hdec
      omega

end Thuos.Shell
