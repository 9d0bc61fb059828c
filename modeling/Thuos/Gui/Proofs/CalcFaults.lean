/-
When the calculator halts the system.

A key divides only when it applies a pending division to two operands
(`appCalcKey_none_iff`). `calc_apply` tests the divisor for 0 and nothing
else, so the one division that raises the exception is that of the least
`long` by -1. Both operands can be typed: digits are entered with wrapping
arithmetic, so ten of them make any 32-bit number, negative ones too.

Which keys lead there is a matter of what they say. Any keys since the last
`C` spell entries, each up to an `=`, and one that is being typed
(`typed_keys`); an operator may lack its number, and an entry the number it
starts with. They are worked out from left to right, every result going
around the range of a `long`, and an operator without a number repeats the
number before (`Draft.value`, `Draft.operand`). The calculator's state is
that reading of what was typed (`Reads`).
-/
import Thuos.Gui.Calc
import Thuos.Gui.Proofs.LeftToRight
import Thuos.Lib.Machine

namespace Thuos.Gui

open Machine Numeral

-- ============================================================= what is typed

/-- What has been typed of an entry: the number it starts with, or more
with an operator and its number. Either number may not be typed yet, or
not at all. -/
inductive Draft
  | number (n : Option Number)
  | apply (left : Draft) (op : Operator) (n : Option Number)

/-- The entries since the last `C` that an `=` has ended, and the one that
is being typed. -/
structure Typed where
  answers : List Draft
  draft : Draft

/-- A number with one more digit. -/
def moreDigits (n : Option Number) (d : Nat) (hd : d < 10) : Number where
  digits := (n.elim [] Number.digits) ++ [d]
  nonempty := List.append_ne_nil_of_right_ne_nil _ (List.cons_ne_nil _ _)
  decimal := by
    intro e he
    cases List.mem_append.mp he with
    | inl hold =>
        cases n with
        | none => cases hold
        | some n => exact n.decimal e hold
    | inr hnew =>
        rw [List.mem_singleton.mp hnew]
        exact hd

/-- A digit belongs to the last number. -/
def Draft.digit : Draft → (d : Nat) → d < 10 → Draft
  | .number n, d, hd => .number (some (moreDigits n d hd))
  | .apply e op n, d, hd => .apply e op (some (moreDigits n d hd))

/-- The digit on a key. -/
def digitOf (c : UInt8) : Option (Fin 10) :=
  if h : 0x30 ≤ c.toNat ∧ c.toNat ≤ 0x39 then some ⟨c.toNat - 0x30, by omega⟩
  else none

/-- The operator on a key. -/
def operatorOf (c : UInt8) : Option Operator :=
  if c = plusKey then some .plus
  else if c = minusKey then some .minus
  else if c = timesKey then some .times
  else if c = divideKey then some .divide
  else none

/-- `C` or `c`. -/
def Clears (c : UInt8) : Prop := c = 0x63 ∨ c = clearKey

instance (c : UInt8) : Decidable (Clears c) :=
  inferInstanceAs (Decidable (_ ∨ _))

/-- `=` or the newline. -/
def Ends (c : UInt8) : Prop := c = equalsKey ∨ c = 10

instance (c : UInt8) : Decidable (Ends c) :=
  inferInstanceAs (Decidable (_ ∨ _))

/-- Nothing is typed. -/
def Typed.nothing : Typed := ⟨[], .number none⟩

/-- One more key. -/
def Typed.key (t : Typed) (c : UInt8) : Typed :=
  match digitOf c with
  | some d => { t with draft := t.draft.digit d.val d.isLt }
  | none =>
      match operatorOf c with
      | some op => { t with draft := .apply t.draft op none }
      | none =>
          if Ends c then ⟨t.answers ++ [t.draft], .number none⟩
          else if Clears c then .nothing
          else t

/-- What the keys say. -/
def typed (keys : List UInt8) : Typed := exec Typed.key .nothing keys

def Draft.keys : Draft → List UInt8
  | .number n => firstKeys n
  | .apply e op n => e.keys ++ op.key :: firstKeys n

def Typed.keys (t : Typed) : List UInt8 :=
  t.answers.flatMap (fun e => e.keys ++ [equalsKey]) ++ t.draft.keys

/-- The keys since the last `C`, with a newline as an `=`, and without
those the calculator does not have. -/
def sinceClear (keys : List UInt8) : List UInt8 :=
  let kept := (keys.reverse.takeWhile fun c => ¬ Clears c).reverse
  (kept.filter fun c =>
    (digitOf c).isSome ∨ (operatorOf c).isSome ∨ Ends c).map
      fun c => if Ends c then equalsKey else c

-- ============================================================= what it means

/-- The number, gone around the range of a `long`. -/
def aroundLong (v : Int) : Int := v.bmod (2 ^ 32)

/-- The last number that was typed; without one, the last result `v`. -/
def Draft.operand (v : Int) : Draft → Int
  | .number none => v
  | .number (some n) => aroundLong n.value
  | .apply e _ none => e.operand v
  | .apply _ _ (some n) => aroundLong n.value

/-- The value, from left to right. -/
def Draft.value (v : Int) : Draft → Int
  | .number n => (Draft.number n).operand v
  | .apply e op n =>
      aroundLong (op.apply (e.value v) ((Draft.apply e op n).operand v))

/-- The last result. -/
def Typed.last (t : Typed) : Int := exec Draft.value 0 t.answers

/-- The last operator divides the least `long` by -1. -/
def Draft.Overflows (v : Int) : Draft → Prop
  | .number _ => False
  | .apply e op n =>
      op.key = divideKey ∧ e.value v = -2 ^ 31
        ∧ (Draft.apply e op n).operand v = -1

instance (v : Int) : (d : Draft) → Decidable (d.Overflows v)
  | .number _ => inferInstanceAs (Decidable False)
  | .apply _ _ _ => inferInstanceAs (Decidable (_ ∧ _ ∧ _))

/-- So does what is being typed. -/
def Typed.Overflows (t : Typed) : Prop := t.draft.Overflows t.last

instance (t : Typed) : Decidable t.Overflows :=
  inferInstanceAs (Decidable (t.draft.Overflows t.last))

-- ============================================================== the division

/-- The key applies the pending operation. -/
def Applies (c : UInt8) : Prop :=
  c = plusKey ∨ c = minusKey ∨ c = timesKey ∨ c = divideKey ∨ c = equalsKey
    ∨ c = 10

instance (c : UInt8) : Decidable (Applies c) :=
  inferInstanceAs (Decidable (_ ∨ _))

/-- The pending operation divides the least number by -1. -/
def Overflows (s : Calc) : Prop :=
  s.op = divideKey ∧ s.acc = Int32.minValue ∧ s.cur = -1

instance (s : Calc) : Decidable (Overflows s) :=
  inferInstanceAs (Decidable (_ ∧ _))

/-- The guard of `calc_apply` leaves one division that faults. -/
theorem calcApply_none_iff (a : Int32) (op : UInt8) (b : Int32) :
    calcApply a op b = none
      ↔ op = divideKey ∧ a = Int32.minValue ∧ b = -1 := by
  unfold calcApply
  by_cases hdiv : op = divideKey
  · subst hdiv
    rw [if_neg (by decide), if_neg (by decide), if_neg (by decide),
      if_pos rfl]
    by_cases hb : b = 0
    · subst hb
      simp
    · unfold idiv
      simp [hb]
  · split
    · simp [hdiv]
    split
    · simp [hdiv]
    split
    · simp [hdiv]
    · simp [hdiv]

theorem Calc.result_none_iff (s : Calc) : s.result = none ↔ Overflows s := by
  unfold Calc.result Overflows
  by_cases hop : s.op ≠ 0
  · rw [if_pos hop]
    exact calcApply_none_iff s.acc s.op s.cur
  · have hzero : s.op = 0 := not_not.mp hop
    rw [if_neg hop, hzero]
    constructor
    · intro h
      cases h
    · rintro ⟨h, -⟩
      exact absurd h (by decide)

/-- The step lemma. -/
theorem appCalcKey_none_iff (s : Calc) (c : UInt8) :
    appCalcKey s c = none ↔ Applies c ∧ Overflows s := by
  have hresult := s.result_none_iff
  unfold appCalcKey Applies
  by_cases hdigit : 0x30 ≤ c ∧ c ≤ 0x39
  · have hother : ∀ k : UInt8, k < 0x30 ∨ 0x39 < k → c ≠ k := by
      rintro k hk rfl
      rcases hk with hk | hk
      · exact absurd hdigit.1 (UInt8.not_le.mpr hk)
      · exact absurd hdigit.2 (UInt8.not_le.mpr hk)
    simp [hdigit, hother plusKey (by decide), hother minusKey (by decide),
      hother timesKey (by decide), hother divideKey (by decide),
      hother equalsKey (by decide), hother 10 (by decide)]
  rw [if_neg hdigit]
  by_cases hop : c = plusKey ∨ c = minusKey ∨ c = timesKey ∨ c = divideKey
  · rw [if_pos hop, Option.map_eq_none_iff, hresult]
    tauto
  rw [if_neg hop]
  by_cases hequals : c = equalsKey ∨ c = 10
  · rw [if_pos hequals, Option.map_eq_none_iff, hresult]
    tauto
  rw [if_neg hequals]
  constructor
  · intro h
    split at h
    · cases h
    · cases h
  · tauto

-- =============================================================== what it spells

theorem digitOf_some {c : UInt8} {d : Fin 10} (h : digitOf c = some d) :
    (0x30 ≤ c ∧ c ≤ 0x39) ∧ c.toNat - 48 = d.val
      ∧ 0x30 + UInt8.ofNat d.val = c := by
  unfold digitOf at h
  split at h
  · next hrange =>
      obtain rfl := Option.some.inj h
      refine ⟨⟨UInt8.le_iff_toNat_le.mpr hrange.1,
        UInt8.le_iff_toNat_le.mpr hrange.2⟩, rfl, ?_⟩
      rw [← UInt8.toNat_inj, UInt8.toNat_add, UInt8.toNat_ofNat']
      show (48 + (c.toNat - 48) % 256) % 256 = c.toNat
      omega
  · cases h

theorem digitOf_none {c : UInt8} (h : digitOf c = none) :
    ¬ (0x30 ≤ c ∧ c ≤ 0x39) := by
  rintro ⟨hlow, hhigh⟩
  unfold digitOf at h
  rw [dif_pos ⟨UInt8.le_iff_toNat_le.mp hlow,
    UInt8.le_iff_toNat_le.mp hhigh⟩] at h
  cases h

theorem operatorOf_some {c : UInt8} {op : Operator}
    (h : operatorOf c = some op) : op.key = c := by
  unfold operatorOf at h
  split at h
  · next hc =>
      obtain rfl := Option.some.inj h
      exact hc.symm
  split at h
  · next hc =>
      obtain rfl := Option.some.inj h
      exact hc.symm
  split at h
  · next hc =>
      obtain rfl := Option.some.inj h
      exact hc.symm
  split at h
  · next hc =>
      obtain rfl := Option.some.inj h
      exact hc.symm
  · cases h

theorem operatorOf_none {c : UInt8} (h : operatorOf c = none) :
    ¬ (c = plusKey ∨ c = minusKey ∨ c = timesKey ∨ c = divideKey) := by
  rintro (rfl | rfl | rfl | rfl)
  · cases h
  · cases h
  · cases h
  · cases h

/-- A digit key is none of the others. -/
theorem digitOf_other {c : UInt8} {d : Fin 10} (h : digitOf c = some d) :
    ¬ Ends c ∧ ¬ Clears c := by
  constructor
  · rintro (rfl | rfl)
    · cases h
    · cases h
  · rintro (rfl | rfl)
    · cases h
    · cases h

/-- Nor is an operator key. -/
theorem operatorOf_other {c : UInt8} {op : Operator}
    (h : operatorOf c = some op) : ¬ Ends c ∧ ¬ Clears c := by
  constructor
  · rintro (rfl | rfl)
    · cases h
    · cases h
  · rintro (rfl | rfl)
    · cases h
    · cases h

/-- A digit is typed behind what there is. -/
theorem Draft.keys_digit (e : Draft) {d : Nat} (hd : d < 10) :
    (e.digit d hd).keys = e.keys ++ [0x30 + UInt8.ofNat d] := by
  have hnumber : ∀ n : Option Number,
      firstKeys (some (moreDigits n d hd))
        = firstKeys n ++ [0x30 + UInt8.ofNat d] := by
    intro n
    cases n with
    | none => rfl
    | some n => exact List.map_append
  cases e with
  | number n => exact hnumber n
  | apply e op n =>
      show e.keys ++ op.key :: firstKeys (some (moreDigits n d hd)) = _
      rw [hnumber, ← List.cons_append, ← List.append_assoc]
      rfl

/-- One more key, after the last `C` or as the next. -/
theorem sinceClear_concat (keys : List UInt8) (c : UInt8) :
    sinceClear (keys ++ [c])
      = if Clears c then []
        else sinceClear keys
          ++ if (digitOf c).isSome ∨ (operatorOf c).isSome ∨ Ends c then
              [if Ends c then equalsKey else c]
            else [] := by
  unfold sinceClear
  rw [List.reverse_concat]
  by_cases hclear : Clears c
  · rw [if_pos hclear, List.takeWhile_cons_of_neg (by simpa using hclear)]
    rfl
  · rw [if_neg hclear, List.takeWhile_cons_of_pos (by simpa using hclear)]
    dsimp only
    rw [List.reverse_cons, List.filter_append, List.map_append]
    congr 1
    by_cases hkey : (digitOf c).isSome ∨ (operatorOf c).isSome ∨ Ends c
    · rw [if_pos hkey, List.filter_cons_of_pos (by simpa using hkey)]
      rfl
    · rw [if_neg hkey, List.filter_cons_of_neg (by simpa using hkey)]
      rfl

/-- What was typed is spelled by the keys since the last `C`. -/
theorem typed_keys (keys : List UInt8) :
    (typed keys).keys = sinceClear keys := by
  induction keys using List.reverseRecOn with
  | nil => rfl
  | append_singleton keys c ih =>
      have hnext : typed (keys ++ [c]) = (typed keys).key c :=
        exec_append ..
      rw [hnext, sinceClear_concat, ← ih]
      unfold Typed.key
      cases hdigit : digitOf c with
      | some d =>
          obtain ⟨hends, hclears⟩ := digitOf_other hdigit
          obtain ⟨-, -, hc⟩ := digitOf_some hdigit
          have hkey : (some d).isSome = true ∨ (operatorOf c).isSome = true
              ∨ Ends c := Or.inl rfl
          dsimp only
          rw [if_neg hclears, if_pos hkey, if_neg hends]
          dsimp only [Typed.keys]
          rw [Draft.keys_digit, hc, List.append_assoc]
      | none =>
          dsimp only
          cases hop : operatorOf c with
          | some op =>
              obtain ⟨hends, hclears⟩ := operatorOf_other hop
              have hkey : (none : Option (Fin 10)).isSome = true
                  ∨ (some op).isSome = true ∨ Ends c := Or.inr (Or.inl rfl)
              dsimp only
              rw [if_neg hclears, if_pos hkey, if_neg hends]
              dsimp only [Typed.keys, Draft.keys]
              rw [operatorOf_some hop, List.append_assoc]
              rfl
          | none =>
              dsimp only
              by_cases hends : Ends c
              · have hclears : ¬ Clears c := by
                  rcases hends with rfl | rfl
                  · decide
                  · decide
                rw [if_pos hends, if_neg hclears,
                  if_pos (Or.inr (Or.inr hends)), if_pos hends]
                simp [Typed.keys, Draft.keys, firstKeys]
              rw [if_neg hends]
              by_cases hclears : Clears c
              · rw [if_pos hclears, if_pos hclears]
                rfl
              · have hother : ¬ ((none : Option (Fin 10)).isSome
                    ∨ (none : Option Operator).isSome ∨ Ends c) := by
                  simpa using hends
                rw [if_neg hclears, if_neg hclears, if_neg hother,
                  List.append_nil]

-- ================================================================= the reading

/-- The pending operation and its left operand. -/
def Draft.Pends (v : Int) : Draft → Calc → Prop
  | .number _, s => s.op = 0
  | .apply e op _, s => s.op = op.key ∧ s.acc.toInt = e.value v

/-- The last number, if it is being typed. -/
def Draft.latest : Draft → Option Number
  | .number n => n
  | .apply _ _ n => n

/-- The calculator's state is what has been typed. -/
structure Reads (t : Typed) (s : Calc) : Prop where
  cur : s.cur.toInt = t.draft.operand t.last
  fresh : s.fresh = t.draft.latest.isNone
  pends : t.draft.Pends t.last s

section Reading

variable {t : Typed} {s : Calc}

theorem Operator.key_ne_zero (op : Operator) : op.key ≠ 0 := by
  cases op with
  | plus => decide
  | minus => decide
  | times => decide
  | divide => decide

/-- The least `long` and -1, as numbers. -/
theorem toInt_least_iff (a : Int32) :
    a = Int32.minValue ↔ a.toInt = -2 ^ 31 := by
  rw [← Int32.toInt_inj]
  rfl

theorem toInt_minus_one_iff (a : Int32) : a = -1 ↔ a.toInt = -1 := by
  rw [← Int32.toInt_inj]
  rfl

/-- The division that faults is the one that was typed. -/
theorem Reads.overflows_iff (h : Reads t s) : Overflows s ↔ t.Overflows := by
  obtain ⟨answers, draft⟩ := t
  have hcur := h.cur
  have hpends := h.pends
  unfold Overflows Typed.Overflows
  cases draft with
  | number n =>
      have hop : s.op = 0 := hpends
      rw [hop]
      constructor
      · rintro ⟨hdivide, -⟩
        exact absurd hdivide (by decide)
      · exact False.elim
  | apply e op n =>
      obtain ⟨hop, hacc⟩ := hpends
      rw [hop, toInt_least_iff, toInt_minus_one_iff, hacc, hcur]
      rfl

/-- An operation on two `long`s is the operation on numbers, gone
around. -/
theorem calcApply_around {op : Operator} {a b r : Int32}
    (h : calcApply a op.key b = some r) :
    r.toInt = aroundLong (op.apply a.toInt b.toInt) := by
  cases op with
  | plus =>
      obtain rfl : a + b = r := Option.some.inj h
      exact Int32.toInt_add a b
  | minus =>
      obtain rfl : a - b = r := Option.some.inj h
      exact Int32.toInt_sub a b
  | times =>
      obtain rfl : a * b = r := Option.some.inj h
      exact Int32.toInt_mul a b
  | divide =>
      have hkey : calcApply a divideKey b
          = if b ≠ 0 then idiv a b else some 0 := rfl
      have happly : Operator.divide.apply a.toInt b.toInt
          = if b.toInt = 0 then 0 else a.toInt.tdiv b.toInt := rfl
      have h' : (if b ≠ 0 then idiv a b else some 0) = some r := h
      rw [happly]
      by_cases hb : b = 0
      · subst hb
        obtain rfl : 0 = r := Option.some.inj h'
        rfl
      · have hne : b.toInt ≠ 0 := fun hzero => hb (Int32.toInt_inj.mp hzero)
        rw [if_pos hb] at h'
        unfold idiv at h'
        split at h'
        · cases h'
        · obtain rfl := Option.some.inj h'
          rw [if_neg hne]
          exact Int32.toInt_div a b

/-- What an operator or an `=` computes is the value of what was typed. -/
theorem Reads.result (h : Reads t s) (hsafe : ¬ t.Overflows) :
    ∃ a, s.result = some a ∧ a.toInt = t.draft.value t.last := by
  have hsome : s.result ≠ none := by
    rw [Ne, s.result_none_iff, h.overflows_iff]
    exact hsafe
  obtain ⟨a, ha⟩ := Option.ne_none_iff_exists'.mp hsome
  refine ⟨a, ha, ?_⟩
  obtain ⟨answers, draft⟩ := t
  have hcur := h.cur
  have hpends := h.pends
  unfold Calc.result at ha
  cases draft with
  | number n =>
      have hop : s.op = 0 := hpends
      rw [if_neg (not_not.mpr hop)] at ha
      obtain rfl := Option.some.inj ha
      exact hcur
  | apply e op n =>
      obtain ⟨hop, hacc⟩ := hpends
      rw [hop, if_pos op.key_ne_zero] at ha
      have hvalue := calcApply_around ha
      rw [hacc, hcur] at hvalue
      exact hvalue

/-- A digit behind a number is the number with one more digit. -/
theorem around_moreDigits (n : Option Number) {d : Nat} (hd : d < 10)
    {cur : Int32} (hcur : ∀ m, n = some m → cur.toInt = aroundLong m.value)
    (hfirst : n = none → cur = 0) :
    (cur * 10 + Int32.ofNat d).toInt
      = aroundLong (moreDigits n d hd).value := by
  have hword : cur = Int32.ofNat (n.elim 0 fun m => value 10 m.digits) := by
    cases n with
    | none => exact hfirst rfl
    | some m =>
        rw [← Int32.toInt_inj, hcur m rfl, Int32.toInt_ofNat']
        rfl
  have hvalue : (moreDigits n d hd).value
      = ((n.elim 0 fun m => value 10 m.digits) * 10 + d : Nat) := by
    unfold Number.value
    show ((value 10 ((n.elim [] Number.digits) ++ [d]) : Nat) : Int) = _
    rw [value_concat]
    cases n with
    | none => rfl
    | some m => rfl
  rw [hvalue, hword]
  have hten : Int32.ofNat (n.elim 0 fun m => value 10 m.digits) * 10
        + Int32.ofNat d
      = Int32.ofNat ((n.elim 0 fun m => value 10 m.digits) * 10 + d) := by
    rw [Int32.ofNat_add, Int32.ofNat_mul]
    rfl
  rw [hten, Int32.toInt_ofNat']
  rfl

theorem Draft.operand_latest (e : Draft) (v : Int) {n : Number}
    (h : e.latest = some n) : e.operand v = aroundLong n.value := by
  cases e with
  | number m =>
      obtain rfl : m = some n := h
      rfl
  | apply e op m =>
      obtain rfl : m = some n := h
      rfl

/-- A digit changes the number it belongs to, and nothing else. -/
theorem Draft.digit_spec (e : Draft) (v : Int) {d : Nat} (hd : d < 10) :
    (e.digit d hd).latest = some (moreDigits e.latest d hd)
      ∧ ∀ s s' : Calc, s'.op = s.op → s'.acc = s.acc → e.Pends v s →
        (e.digit d hd).Pends v s' := by
  cases e with
  | number n => exact ⟨rfl, fun s s' hop _ hpends => hop.trans hpends⟩
  | apply e op n =>
      refine ⟨rfl, fun s s' hop hacc hpends => ?_⟩
      obtain ⟨hkey, hvalue⟩ := hpends
      exact ⟨hop.trans hkey, by rw [hacc, hvalue]⟩

/-- A digit. -/
theorem Reads.digit (h : Reads t s) {d : Nat} (hd : d < 10) :
    Reads { t with draft := t.draft.digit d hd }
      { s with
        cur := (if s.fresh then 0 else s.cur) * 10 + Int32.ofNat d
        fresh := false
        disp := (if s.fresh then 0 else s.cur) * 10 + Int32.ofNat d } := by
  obtain ⟨hlatest, hpends⟩ := t.draft.digit_spec t.last hd
  refine ⟨?_, ?_, hpends s _ rfl rfl h.pends⟩
  · refine Eq.trans ?_ (Draft.operand_latest _ _ hlatest).symm
    apply around_moreDigits
    · intro m hm
      rw [h.fresh, hm, if_neg (by simp), h.cur]
      exact t.draft.operand_latest _ hm
    · intro hnone
      rw [h.fresh, hnone]
      rfl
  · show false = (t.draft.digit d hd).latest.isNone
    rw [hlatest]
    rfl

/-- An operator. -/
theorem Reads.operator (h : Reads t s) (op : Operator)
    (hsafe : ¬ t.Overflows) :
    ∃ s', appCalcKey s op.key = some s'
      ∧ Reads { t with draft := .apply t.draft op none } s' := by
  obtain ⟨a, ha, hvalue⟩ := h.result hsafe
  rw [operator_step, ha]
  exact ⟨_, rfl, h.cur, rfl, rfl, hvalue⟩

/-- The end of an entry. -/
theorem Reads.ends (h : Reads t s) {c : UInt8} (hc : Ends c)
    (hsafe : ¬ t.Overflows) :
    ∃ s', appCalcKey s c = some s'
      ∧ Reads ⟨t.answers ++ [t.draft], .number none⟩ s' := by
  obtain ⟨a, ha, hvalue⟩ := h.result hsafe
  have hkey : appCalcKey s c
      = s.result.map fun acc => ⟨acc, acc, 0, true, acc⟩ := by
    rcases hc with rfl | rfl
    · rfl
    · rfl
  have hlast : Typed.last ⟨t.answers ++ [t.draft], .number none⟩
      = t.draft.value t.last := exec_append ..
  rw [hkey, ha]
  exact ⟨_, rfl, hvalue.trans hlast.symm, rfl, rfl⟩

/-- The step lemma: without the fault, the state stays what is typed. -/
theorem Reads.key (h : Reads t s) (c : UInt8)
    (hsafe : ¬ (Applies c ∧ t.Overflows)) :
    ∃ s', appCalcKey s c = some s' ∧ Reads (t.key c) s' := by
  unfold Typed.key
  cases hdigit : digitOf c with
  | some d =>
      obtain ⟨-, -, hc⟩ := digitOf_some hdigit
      refine ⟨_, ?_, h.digit d.isLt⟩
      rw [← hc]
      exact digit_step s d.isLt
  | none =>
      dsimp only
      cases hop : operatorOf c with
      | some op =>
          have hc := operatorOf_some hop
          have happlies : Applies op.key := by
            cases op with
            | plus => decide
            | minus => decide
            | times => decide
            | divide => decide
          rw [← hc] at hsafe ⊢
          exact h.operator op fun hover => hsafe ⟨happlies, hover⟩
      | none =>
          dsimp only
          by_cases hends : Ends c
          · rw [if_pos hends]
            refine h.ends hends fun hover => hsafe ⟨?_, hover⟩
            rcases hends with rfl | rfl
            · decide
            · decide
          rw [if_neg hends]
          have hskip : appCalcKey s c
              = if Clears c then some calcOpen else some s := by
            have hequals : ¬ (c = equalsKey ∨ c = 10) := hends
            unfold appCalcKey
            rw [if_neg (digitOf_none hdigit), if_neg (operatorOf_none hop),
              if_neg hequals]
            rfl
          rw [hskip]
          by_cases hclears : Clears c
          · rw [if_pos hclears, if_pos hclears]
            exact ⟨calcOpen, rfl, rfl, rfl, rfl⟩
          · rw [if_neg hclears, if_neg hclears]
            exact ⟨s, rfl, h⟩

/-- The run lemma. -/
theorem Reads.runs_iff (h : Reads t s) (keys : List UInt8) :
    (∃ s', execM appCalcKey s keys = some s')
      ↔ Along Typed.key (fun t c => ¬ (Applies c ∧ t.Overflows)) t keys := by
  induction keys generalizing s t with
  | nil => exact iff_of_true ⟨s, rfl⟩ trivial
  | cons c keys ih =>
      rw [execM_cons]
      by_cases hfault : Applies c ∧ t.Overflows
      · have hnone : appCalcKey s c = none := by
          rw [appCalcKey_none_iff, h.overflows_iff]
          exact hfault
        rw [hnone]
        refine iff_of_false ?_ fun halong => halong.1 hfault
        rintro ⟨s', hs'⟩
        cases hs'
      · obtain ⟨s', hs', hreads⟩ := h.key c hfault
        rw [hs', Option.bind_some, ih hreads]
        exact ⟨fun halong => ⟨hfault, halong⟩, fun halong => halong.2⟩

end Reading

-- ================================================================== the result

/-- Over every sequence of keys: no division faults exactly when no
operator, `=` or newline is pressed after a `/` whose left operand, worked
out from left to right from what was typed, is the least `long` and whose
right one is -1; and what was typed is what the keys since the last `C`
spell. -/
theorem calc_runs_iff (keys : List UInt8) :
    ((∃ s, execM appCalcKey calcOpen keys = some s)
        ↔ Along Typed.key (fun t c => ¬ (Applies c ∧ t.Overflows)) .nothing
          keys)
      ∧ (typed keys).keys = sinceClear keys := by
  have hstart : Reads .nothing calcOpen := ⟨rfl, rfl, rfl⟩
  exact ⟨hstart.runs_iff keys, typed_keys keys⟩

/-- `2147483648/4294967295=`. -/
def overflowKeys : List UInt8 :=
  [0x32, 0x31, 0x34, 0x37, 0x34, 0x38, 0x33, 0x36, 0x34, 0x38, divideKey,
    0x34, 0x32, 0x39, 0x34, 0x39, 0x36, 0x37, 0x32, 0x39, 0x35, equalsKey]

/-- The last key divides -2147483648 by -1. -/
theorem calc_faults :
    execM appCalcKey calcOpen overflowKeys = none
      ∧ execM appCalcKey calcOpen overflowKeys.dropLast
        = some ⟨-2147483648, -1, divideKey, false, -1⟩ := by
  decide +kernel

end Thuos.Gui
