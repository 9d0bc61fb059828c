/-
What a format says is what is printed.

A format is a sequence of pieces: plain characters, and conversions behind
a `%`, with a width or without (`Piece`). Every format can be read so, up to
a conversion that its end cuts off (`spelled`). `Prints` is what the pieces
mean: each conversion takes its arguments from the front, and prints a
numeral, a string or a character. `kprintf` finds the pieces, and prints
what they mean and no more (`kprintf_prints`).

A width above 32 would overrun the buffer of `print_uint`, so the pieces
keep to it.
-/
import Thuos.Shell.Proofs.ReadBack

namespace Thuos.Core

open Numeral Shell

-- ================================================================== formats

/-- A piece of a format. -/
inductive Piece
  | plain (c : UInt8) (h : c ≠ 0x25)
  | conv (c : UInt8) (h : c ≠ 0x30)
  | wide (ds : List (Fin 10)) (c : UInt8) (h : ¬ (0x30 ≤ c ∧ c ≤ 0x39))

/-- A decimal digit, as it is written. -/
def digitText (d : Fin 10) : UInt8 := digitChar false d.val

/-- How a piece is written. -/
def Piece.text : Piece → List UInt8
  | .plain c _ => [c]
  | .conv c _ => [0x25, c]
  | .wide ds c _ => [0x25, 0x30] ++ ds.map digitText ++ [c]

def Piece.width : Piece → Nat
  | .wide ds _ _ => value 10 (ds.map Fin.val)
  | _ => 0

/-- A conversion that the end of the format cuts off. -/
inductive Unfinished : List UInt8 → Prop
  | nothing : Unfinished []
  | percent : Unfinished [0x25]
  | width (ds : List (Fin 10)) :
      Unfinished ([0x25, 0x30] ++ ds.map digitText)

/-- The format is these pieces, and an unfinished one. -/
def Spells (fmt : List UInt8) (ps : List Piece) (tail : List UInt8) : Prop :=
  fmt = ps.flatMap Piece.text ++ tail ∧ Unfinished tail

-- ================================================================== meaning

/-- A number in a base, with zeros in front up to a width. -/
def numberText (upper : Bool) (base width n : Nat) : List UInt8 :=
  (List.replicate (width - (numeral base n).length) 0 ++ numeral base n).map
    (digitChar upper)

/-- A number with its sign. -/
def signedText (v : Int) : List UInt8 :=
  (if v < 0 then [0x2D] else []) ++ numberText false 10 0 v.natAbs

/-- The characters that stand for a conversion. -/
def conversions : List UInt8 := (CStr.ofString "scdiuxXp%").chars

/-- The arguments that a conversion takes, and what it prints. -/
inductive Converts (width : Nat) : UInt8 → List Arg → List UInt8 → Prop
  | string (s : CStr) : Converts width 0x73 [.str (some s)] s.chars
  | null : Converts width 0x73 [.str none] nullText.chars
  | char (v : UInt32) : Converts width 0x63 [.word v] [v.toUInt8]
  | decimal (v : UInt32) :
      Converts width 0x64 [.word v] (signedText v.toInt32.toInt)
  | integer (v : UInt32) :
      Converts width 0x69 [.word v] (signedText v.toInt32.toInt)
  | unsigned (v : UInt32) :
      Converts width 0x75 [.word v] (numberText false 10 width v.toNat)
  | hex (v : UInt32) :
      Converts width 0x78 [.word v] (numberText false 16 width v.toNat)
  | upperHex (v : UInt32) :
      Converts width 0x58 [.word v] (numberText true 16 width v.toNat)
  | pointer (v : UInt32) :
      Converts width 0x70 [.word v]
        ([0x30, 0x78] ++ numberText false 16 8 v.toNat)
  | percent : Converts width 0x25 [] [0x25]
  | unknown (c : UInt8) (h : c ∉ conversions) : Converts width c [] [0x25, c]

/-- What pieces print, given the arguments. -/
inductive Prints : List Piece → List Arg → List UInt8 → Prop
  | done (args : List Arg) : Prints [] args []
  | plain {c h ps args out} (rest : Prints ps args out) :
      Prints (.plain c h :: ps) args (c :: out)
  | conv {c h ps taken args text out} (now : Converts 0 c taken text)
      (rest : Prints ps args out) :
      Prints (.conv c h :: ps) (taken ++ args) (text ++ out)
  | wide {ds c h ps taken args text out}
      (now : Converts (Piece.wide ds c h).width c taken text)
      (rest : Prints ps args out) :
      Prints (.wide ds c h :: ps) (taken ++ args) (text ++ out)

-- ============================================================== the numbers

theorem printUint_numberText (v : UInt32) {base : Nat} (hb : 1 < base)
    (upper : Bool) (width : Nat) :
    printUint v base upper width = numberText upper base width v.toNat :=
  printUint_eq v hb upper width

theorem printInt_signedText (v : Int32) :
    printInt v = signedText v.toInt := by
  unfold printInt signedText
  by_cases hneg : v < 0
  · have hlt : v.toInt < 0 := by simpa using Int32.lt_iff_toInt_lt.mp hneg
    rw [if_pos hneg, if_pos hlt, printUint_numberText _ (by decide),
      (magnitude_eq hneg).1]
    have habs : (-v.toInt).toNat = v.toInt.natAbs := by omega
    rw [habs]
    rfl
  · have hle : 0 ≤ v.toInt := by
      have hnot := mt Int32.lt_iff_toInt_lt.mpr hneg
      simpa using hnot
    have habs : v.toUInt32.toNat = v.toInt.natAbs := by
      show v.toBitVec.toNat = v.toBitVec.toInt.natAbs
      have hle : 0 ≤ v.toBitVec.toInt := hle
      rw [BitVec.toInt_eq_toNat_bmod] at hle ⊢
      simp only [Int.bmod] at hle ⊢
      have hlt := v.toBitVec.isLt
      omega
    rw [if_neg hneg, if_neg (by omega), printUint_numberText _ (by decide),
      habs]
    rfl

theorem divided_length (f : Nat → UInt8) (b fuel n : Nat) :
    (divided f b fuel n).length ≤ fuel := by
  induction fuel generalizing n with
  | zero => exact Nat.le_refl 0
  | succ fuel ih =>
      unfold divided
      split
      · exact Nat.zero_le _
      · rw [List.length_cons]
        exact Nat.succ_le_succ (ih _)

/-- The buffer of `print_uint` is enough. -/
theorem printUint_length (v : UInt32) (base : Nat) (upper : Bool)
    {width : Nat} (h : width ≤ 32) :
    (printUint v base upper width).length ≤ 32 := by
  have hdigits : (if v = 0 then [0x30]
      else divided (digitChar upper) base 32 v.toNat).length ≤ 32 := by
    split
    · decide
    · exact divided_length ..
  unfold printUint
  dsimp only
  rw [List.length_reverse, List.length_append, List.length_replicate]
  omega

-- =========================================================== the conversion

theorem takes_word {f : UInt32 → List UInt8} {args rest : List Arg}
    {text : List UInt8}
    (h : (match args with
      | .word v :: args => some (f v, args)
      | _ => none) = some (text, rest)) :
    ∃ v, args = .word v :: rest ∧ text = f v := by
  cases args with
  | nil => cases h
  | cons a args =>
      cases a with
      | word v =>
          cases h
          exact ⟨v, rfl, rfl⟩
      | str s => cases h

theorem takes_string {args rest : List Arg} {text : List UInt8}
    (h : (match args with
      | .str s :: args => some ((s.getD nullText).chars, args)
      | _ => none) = some (text, rest)) :
    ∃ s : Option CStr,
      args = .str s :: rest ∧ text = (s.getD nullText).chars := by
  cases args with
  | nil => cases h
  | cons a args =>
      cases a with
      | word v => cases h
      | str s =>
          cases h
          exact ⟨s, rfl, rfl⟩

/-- What `convert` takes and prints is what the conversion means. -/
theorem converts_of_convert {c : UInt8} {width : Nat} {args rest : List Arg}
    {text : List UInt8} (h : convert c width args = some (text, rest)) :
    ∃ taken, args = taken ++ rest ∧ Converts width c taken text := by
  unfold convert at h
  by_cases hs : c = 0x73
  · rw [if_pos hs] at h
    subst hs
    obtain ⟨s, rfl, rfl⟩ := takes_string h
    cases s with
    | none => exact ⟨[.str none], rfl, .null⟩
    | some s => exact ⟨[.str (some s)], rfl, .string s⟩
  rw [if_neg hs] at h
  by_cases hc : c = 0x63
  · rw [if_pos hc] at h
    subst hc
    obtain ⟨v, rfl, rfl⟩ := takes_word h
    exact ⟨[.word v], rfl, .char v⟩
  rw [if_neg hc] at h
  by_cases hd : c = 0x64 ∨ c = 0x69
  · rw [if_pos hd] at h
    obtain ⟨v, rfl, rfl⟩ := takes_word h
    rw [printInt_signedText]
    cases hd with
    | inl hd =>
        subst hd
        exact ⟨[.word v], rfl, .decimal v⟩
    | inr hi =>
        subst hi
        exact ⟨[.word v], rfl, .integer v⟩
  rw [if_neg hd] at h
  by_cases hu : c = 0x75
  · rw [if_pos hu] at h
    subst hu
    obtain ⟨v, rfl, rfl⟩ := takes_word h
    rw [printUint_numberText v (by decide)]
    exact ⟨[.word v], rfl, .unsigned v⟩
  rw [if_neg hu] at h
  by_cases hx : c = 0x78
  · rw [if_pos hx] at h
    subst hx
    obtain ⟨v, rfl, rfl⟩ := takes_word h
    rw [printUint_numberText v (by decide)]
    exact ⟨[.word v], rfl, .hex v⟩
  rw [if_neg hx] at h
  by_cases hX : c = 0x58
  · rw [if_pos hX] at h
    subst hX
    obtain ⟨v, rfl, rfl⟩ := takes_word h
    rw [printUint_numberText v (by decide)]
    exact ⟨[.word v], rfl, .upperHex v⟩
  rw [if_neg hX] at h
  by_cases hp : c = 0x70
  · rw [if_pos hp] at h
    subst hp
    obtain ⟨v, rfl, rfl⟩ := takes_word h
    rw [printUint_numberText v (by decide)]
    exact ⟨[.word v], rfl, .pointer v⟩
  rw [if_neg hp] at h
  by_cases hpercent : c = 0x25
  · rw [if_pos hpercent] at h
    subst hpercent
    cases h
    exact ⟨[], rfl, .percent⟩
  rw [if_neg hpercent] at h
  cases h
  refine ⟨[], rfl, .unknown c ?_⟩
  have hall : conversions
      = [0x73, 0x63, 0x64, 0x69, 0x75, 0x78, 0x58, 0x70, 0x25] := by decide
  rw [hall]
  simp [hs, hc, not_or.mp hd, hu, hx, hX, hp, hpercent]

theorem convert_of_converts {c : UInt8} {width : Nat} {taken : List Arg}
    {text : List UInt8} (h : Converts width c taken text) (rest : List Arg) :
    convert c width (taken ++ rest) = some (text, rest) := by
  cases h with
  | string s => rfl
  | null => rfl
  | char v => rfl
  | decimal v =>
      rw [← printInt_signedText]
      rfl
  | integer v =>
      rw [← printInt_signedText]
      rfl
  | unsigned v =>
      rw [← printUint_numberText v (by decide)]
      rfl
  | hex v =>
      rw [← printUint_numberText v (by decide)]
      rfl
  | upperHex v =>
      rw [← printUint_numberText v (by decide)]
      rfl
  | pointer v =>
      rw [← printUint_numberText v (by decide)]
      rfl
  | percent => rfl
  | unknown c hc =>
      have hall : conversions
          = [0x73, 0x63, 0x64, 0x69, 0x75, 0x78, 0x58, 0x70, 0x25] := by
        decide
      rw [hall] at hc
      simp only [List.mem_cons, List.not_mem_nil, or_false, not_or] at hc
      unfold convert
      simp [hc]

-- ================================================================ the width

theorem digitText_toNat (d : Fin 10) : (digitText d).toNat = d.val + 0x30 := by
  revert d
  decide

/-- A digit is the text of one. -/
theorem digitText_of_digit {c : UInt8} (h : 0x30 ≤ c ∧ c ≤ 0x39) :
    ∃ d, digitText d = c := by
  obtain ⟨hlow, hhigh⟩ := h
  have hlow := UInt8.le_iff_toNat_le.mp hlow
  have hhigh := UInt8.le_iff_toNat_le.mp hhigh
  have hlow : 0x30 ≤ c.toNat := hlow
  have hhigh : c.toNat ≤ 0x39 := hhigh
  refine ⟨⟨c.toNat - 0x30, by omega⟩, UInt8.toNat_inj.mp ?_⟩
  rw [digitText_toNat]
  show c.toNat - 0x30 + 0x30 = c.toNat
  omega

theorem digitText_digit (d : Fin 10) :
    0x30 ≤ digitText d ∧ digitText d ≤ 0x39 := by
  revert d
  decide

/-- The digits of a width are read, and no more. -/
theorem padDigits_eq (ds : List (Fin 10)) (pad : Nat) {fmt : List UInt8}
    (h : ∀ c ∈ fmt.head?, ¬ (0x30 ≤ c ∧ c ≤ 0x39)) :
    padDigits pad (ds.map digitText ++ fmt)
      = ((ds.map Fin.val).foldl (fun v d => v * 10 + d) pad, fmt) := by
  induction ds generalizing pad with
  | nil =>
      cases fmt with
      | nil => rfl
      | cons c fmt =>
          show (if _ then _ else _) = _
          rw [if_neg (h c rfl)]
          rfl
  | cons d ds ih =>
      have hvalue : (digitText d).toNat - 0x30 = d.val := by
        rw [digitText_toNat, Nat.add_sub_cancel]
      show (if _ then padDigits _ (ds.map digitText ++ fmt) else _) = _
      rw [if_pos (digitText_digit d), hvalue, ih]
      rfl

/-- The digits in front of a text. -/
theorem digits_front (fmt : List UInt8) :
    ∃ (ds : List (Fin 10)) (rest : List UInt8),
      fmt = ds.map digitText ++ rest
        ∧ ∀ c ∈ rest.head?, ¬ (0x30 ≤ c ∧ c ≤ 0x39) := by
  induction fmt with
  | nil => exact ⟨[], [], rfl, by simp⟩
  | cons c fmt ih =>
      by_cases hdigit : 0x30 ≤ c ∧ c ≤ 0x39
      · obtain ⟨ds, rest, rfl, hrest⟩ := ih
        obtain ⟨d, rfl⟩ := digitText_of_digit hdigit
        exact ⟨d :: ds, rest, rfl, hrest⟩
      · refine ⟨[], c :: fmt, rfl, ?_⟩
        rintro _ ⟨⟩
        exact hdigit

-- ================================================================ the pieces

theorem Spells.cons {fmt : List UInt8} {ps : List Piece} {tail : List UInt8}
    (h : Spells fmt ps tail) (p : Piece) :
    Spells (p.text ++ fmt) (p :: ps) tail := by
  obtain ⟨hfmt, htail⟩ := h
  refine ⟨?_, htail⟩
  rw [hfmt, List.flatMap_cons, List.append_assoc]

/-- Every format can be read as pieces. -/
theorem spelled (fmt : List UInt8) : ∃ ps tail, Spells fmt ps tail := by
  -- a piece is one character or more
  induction hn : fmt.length using Nat.strong_induction_on generalizing fmt with
  | _ n ih =>
      cases fmt with
      | nil => exact ⟨[], [], rfl, .nothing⟩
      | cons c fmt =>
          rw [List.length_cons] at hn
          by_cases hc : c = 0x25
          · subst hc
            cases fmt with
            | nil => exact ⟨[], [0x25], rfl, .percent⟩
            | cons c fmt =>
                rw [List.length_cons] at hn
                by_cases hzero : c = 0x30
                · subst hzero
                  obtain ⟨ds, rest, rfl, hrest⟩ := digits_front fmt
                  cases rest with
                  | nil =>
                      refine ⟨[], _, rfl, ?_⟩
                      rw [List.append_nil]
                      exact .width ds
                  | cons c rest =>
                      rw [List.length_append, List.length_cons] at hn
                      obtain ⟨ps, tail, hps⟩ := ih _ (by omega) rest rfl
                      have hcons := hps.cons (.wide ds c (hrest c rfl))
                      have htext : (Piece.wide ds c (hrest c rfl)).text ++ rest
                          = 0x25 :: 0x30
                            :: (ds.map digitText ++ c :: rest) := by
                        simp [Piece.text]
                      rw [htext] at hcons
                      exact ⟨_, _, hcons⟩
                · obtain ⟨ps, tail, hps⟩ := ih _ (by omega) fmt rfl
                  exact ⟨_, _, hps.cons (.conv c hzero)⟩
          · obtain ⟨ps, tail, hps⟩ := ih _ (by omega) fmt rfl
            exact ⟨_, _, hps.cons (.plain c hc)⟩

/-- The width behind a `%`, where the digits end. -/
theorem padWidth_wide (ds : List (Fin 10)) {fmt : List UInt8}
    (h : ∀ c ∈ fmt.head?, ¬ (0x30 ≤ c ∧ c ≤ 0x39)) :
    padWidth (0x30 :: (ds.map digitText ++ fmt))
      = (value 10 (ds.map Fin.val), fmt) := padDigits_eq ds 0 h

/-- What is cut off prints nothing. -/
theorem format_unfinished {tail : List UInt8} (h : Unfinished tail) (n : Nat)
    (args : List Arg) : format n tail args = some [] := by
  cases n with
  | zero => rfl
  | succ n =>
      cases h with
      | nothing => rfl
      | percent => rfl
      | width ds =>
          have hwidth := @padWidth_wide ds [] (by simp)
          rw [List.append_nil] at hwidth
          simp [format, hwidth]

/-- A turn of the loop at a conversion. -/
theorem format_conversion {fmt rest : List UInt8} {c : UInt8} {pad : Nat}
    (h : padWidth fmt = (pad, c :: rest)) (n : Nat) (args : List Arg)
    (out : List UInt8) :
    format (n + 1) (0x25 :: fmt) args = some out
      ↔ ∃ taken args' text out', args = taken ++ args'
        ∧ out = text ++ out' ∧ Converts pad c taken text
        ∧ format n rest args' = some out' := by
  have hturn : format (n + 1) (0x25 :: fmt) args
      = (convert c pad args).bind fun done =>
          (format n rest done.2).map (done.1 ++ ·) := by
    simp only [format, h, ne_eq, not_true_eq_false, if_false]
  rw [hturn, Option.bind_eq_some_iff]
  constructor
  · rintro ⟨⟨text, args'⟩, hconvert, hrest⟩
    obtain ⟨out', hout, rfl⟩ := Option.map_eq_some_iff.mp hrest
    obtain ⟨taken, rfl, hnow⟩ := converts_of_convert hconvert
    exact ⟨taken, args', text, out', rfl, rfl, hnow, hout⟩
  · rintro ⟨taken, args', text, out', rfl, rfl, hnow, hout⟩
    refine ⟨(text, args'), convert_of_converts hnow args', ?_⟩
    show (format n rest args').map (text ++ ·) = _
    rw [hout]
    rfl

/-- The loop prints what the pieces mean. -/
theorem format_iff {fmt : List UInt8} {ps : List Piece} {tail : List UInt8}
    (h : Spells fmt ps tail) {n : Nat} (hn : fmt.length ≤ n)
    (args : List Arg) (out : List UInt8) :
    format n fmt args = some out ↔ Prints ps args out := by
  obtain ⟨rfl, htail⟩ := h
  induction ps generalizing n args out with
  | nil =>
      rw [List.flatMap_nil, List.nil_append, format_unfinished htail]
      constructor
      · rintro ⟨⟩
        exact .done args
      · rintro ⟨⟩
        rfl
  | cons p ps ih =>
      rw [List.flatMap_cons, List.append_assoc] at hn ⊢
      generalize hrest : ps.flatMap Piece.text ++ tail = rest at *
      cases p with
      | plain c hc =>
          cases n with
          | zero => cases hn
          | succ n =>
              have hlen : rest.length ≤ n := Nat.le_of_succ_le_succ hn
              show (if c ≠ 0x25 then (format n rest args).map (c :: ·)
                else _) = some out ↔ _
              rw [if_pos hc, Option.map_eq_some_iff]
              constructor
              · rintro ⟨out', hout, rfl⟩
                exact .plain ((ih args out' hlen).mp hout)
              · intro hprints
                cases hprints with
                | @plain _ _ _ _ out' hprints =>
                    exact ⟨out', (ih args out' hlen).mpr hprints, rfl⟩
      | conv c hc =>
          cases n with
          | zero => cases hn
          | succ n =>
              have hlen : rest.length ≤ n := by
                simp only [Piece.text, List.length_append,
                  List.length_cons] at hn
                omega
              have hwidth : padWidth (c :: rest) = (0, c :: rest) := if_neg hc
              show format (n + 1) (0x25 :: c :: rest) args = some out ↔ _
              rw [format_conversion hwidth]
              constructor
              · rintro ⟨taken, args', text, out', rfl, rfl, hnow, hout⟩
                exact .conv hnow ((ih args' out' hlen).mp hout)
              · intro hprints
                cases hprints with
                | @conv _ _ _ taken args' text out' hnow hprints =>
                    exact ⟨taken, args', text, out', rfl, rfl, hnow,
                      (ih args' out' hlen).mpr hprints⟩
      | wide ds c hc =>
          cases n with
          | zero => cases hn
          | succ n =>
              have hlen : rest.length ≤ n := by
                simp only [Piece.text, List.length_append,
                  List.length_cons] at hn
                omega
              have hend : ∀ d ∈ (c :: rest).head?,
                  ¬ (0x30 ≤ d ∧ d ≤ 0x39) := by
                rintro _ ⟨⟩
                exact hc
              have hwidth := padWidth_wide ds hend
              have htext : (Piece.wide ds c hc).text ++ rest
                  = 0x25 :: 0x30 :: (ds.map digitText ++ c :: rest) := by
                simp [Piece.text]
              rw [htext, format_conversion hwidth]
              constructor
              · rintro ⟨taken, args', text, out', rfl, rfl, hnow, hout⟩
                exact .wide hnow ((ih args' out' hlen).mp hout)
              · intro hprints
                cases hprints with
                | @wide _ _ _ _ taken args' text out' hnow hprints =>
                    exact ⟨taken, args', text, out', rfl, rfl, hnow,
                      (ih args' out' hlen).mpr hprints⟩

-- =============================================================== the result

/-- Every format is a sequence of pieces. With no width above 32, `kprintf`
prints what the pieces mean, and `print_uint` stays in its buffer. -/
theorem kprintf_prints (fmt : CStr) :
    (∃ ps tail, Spells fmt.chars ps tail)
      ∧ ∀ ps tail, Spells fmt.chars ps tail → (∀ p ∈ ps, p.width ≤ 32) →
        (∀ args out, kprintf fmt args = some out ↔ Prints ps args out)
          ∧ ∀ p ∈ ps, ∀ v base upper,
            (printUint v base upper p.width).length ≤ 32 := by
  refine ⟨spelled fmt.chars, fun ps tail h hwidth => ⟨?_, ?_⟩⟩
  · intro args out
    exact format_iff h (Nat.le_refl _) args out
  · intro p hp v base upper
    exact printUint_length v base upper (hwidth p hp)

end Thuos.Core
