/-
The calculator works from left to right.

What is typed comes in entries, each up to an `=`. An entry that starts
with a number is worked out from that number, one that starts with an
operator from the last result. Between two entries no operation is pending
and the number shown is the current operand (`Answered`); inside an entry
the next operator or `=` finds the value of what has been typed so far
(`Stands`), be it the number that was typed first or the pending operation
on the last number. Each operator with its number goes from one value to
the next (`Stands.more`).
-/
import Thuos.Shell.Proofs.ReadBack
import Thuos.Lib.Machine
import Thuos.Lib.Word32

namespace Thuos.Gui

open Machine Numeral Word32

-- ============================================================ what is typed

/-- A decimal numeral. -/
structure Number where
  digits : List Nat
  nonempty : digits ≠ []
  decimal : ∀ d ∈ digits, d < 10

inductive Operator
  | plus
  | minus
  | times
  | divide

/-- What is typed up to an `=`: a number or not, then operators with their
numbers. -/
structure Entry where
  first : Option Number
  rest : List (Operator × Number)

def digitKeys (ds : List Nat) : List UInt8 :=
  ds.map fun d => 0x30 + UInt8.ofNat d

def Number.keys (n : Number) : List UInt8 := digitKeys n.digits

def Operator.key : Operator → UInt8
  | .plus => plusKey
  | .minus => minusKey
  | .times => timesKey
  | .divide => divideKey

/-- An operator and its number. -/
def moreKeys (p : Operator × Number) : List UInt8 := p.1.key :: p.2.keys

def firstKeys : Option Number → List UInt8
  | some n => n.keys
  | none => []

def Entry.keys (e : Entry) : List UInt8 :=
  firstKeys e.first ++ e.rest.flatMap moreKeys ++ [equalsKey]

/-- `C`. -/
def clearKey : UInt8 := 0x43

-- ============================================================= what it means

def Number.value (n : Number) : Int := (Numeral.value 10 n.digits : Nat)

/-- The operation on numbers: a quotient is cut off towards 0, and what is
divided by 0 is 0. -/
def Operator.apply : Operator → Int → Int → Int
  | .plus, a, b => a + b
  | .minus, a, b => a - b
  | .times, a, b => a * b
  | .divide, a, b => if b = 0 then 0 else a.tdiv b

/-- The value, with one more operator and number. -/
def more (v : Int) (p : Operator × Number) : Int := p.1.apply v p.2.value

/-- What an entry is worked out from, if `v` is the last result. -/
def start (v : Int) : Option Number → Int
  | some n => n.value
  | none => v

/-- The result of an entry, from left to right. -/
def Entry.result (v : Int) (e : Entry) : Int :=
  exec more (start v e.first) e.rest

/-- No number and no result of the entry leaves the range of a `long`. -/
def Entry.Fits (v : Int) (e : Entry) : Prop :=
  InInt (start v e.first)
    ∧ Along more (fun v p => InInt p.2.value ∧ InInt (more v p))
      (start v e.first) e.rest

instance (v : Int) (e : Entry) : Decidable (e.Fits v) :=
  inferInstanceAs (Decidable (_ ∧ _))

/-- The display shows the number: the text that `itoa_l` builds of
`cc_disp` is a numeral of it. -/
def Calc.Shows (s : Calc) (v : Int) : Prop :=
  Shell.decimalInt (itoaL s.disp) = some v

theorem Calc.shows_iff (s : Calc) (v : Int) : s.Shows v ↔ s.disp.toInt = v := by
  unfold Calc.Shows
  rw [Shell.itoaL_eq, Shell.printInt_denotes, Option.some.injEq]

-- ============================================================= the arithmetic

/-- `calc_apply` computes the operation where its result is in range. -/
theorem calcApply_eq (op : Operator) (a b : Int32)
    (h : InInt (op.apply a.toInt b.toInt)) :
    ∃ r, calcApply a op.key b = some r
      ∧ r.toInt = op.apply a.toInt b.toInt := by
  have hwrap := h.bmod
  cases op with
  | plus =>
      refine ⟨a + b, rfl, ?_⟩
      rw [Int32.toInt_add]
      exact hwrap
  | minus =>
      refine ⟨a - b, rfl, ?_⟩
      rw [Int32.toInt_sub]
      exact hwrap
  | times =>
      refine ⟨a * b, rfl, ?_⟩
      rw [Int32.toInt_mul]
      exact hwrap
  | divide =>
      have hkey : calcApply a divideKey b
          = if b ≠ 0 then idiv a b else some 0 := rfl
      have happly : Operator.divide.apply a.toInt b.toInt
          = if b.toInt = 0 then 0 else a.toInt.tdiv b.toInt := rfl
      rw [happly] at h hwrap ⊢
      by_cases hb : b = 0
      · subst hb
        exact ⟨0, rfl, rfl⟩
      · have hne : b.toInt ≠ 0 := fun hzero =>
          hb (Int32.toInt_inj.mp hzero)
        rw [if_neg hne] at h hwrap ⊢
        -- the quotient that does not exist is out of range
        have hexists : ¬ (b = 0 ∨ (a = Int32.minValue ∧ b = -1)) := by
          intro hfault
          cases hfault with
          | inl hzero => exact hb hzero
          | inr hleast =>
              obtain ⟨rfl, rfl⟩ := hleast
              exact absurd h (by decide)
        refine ⟨a / b, ?_, ?_⟩
        · show calcApply a divideKey b = _
          rw [hkey, if_pos hb]
          exact if_neg hexists
        · rw [Int32.toInt_div]
          exact hwrap

-- ================================================================== the keys

section Keys

variable {s : Calc} {v : Int}

/-- A digit key. -/
theorem digit_step (s : Calc) {d : Nat} (hd : d < 10) :
    appCalcKey s (0x30 + UInt8.ofNat d)
      = some { s with
          cur := (if s.fresh then 0 else s.cur) * 10 + Int32.ofNat d
          fresh := false
          disp := (if s.fresh then 0 else s.cur) * 10 + Int32.ofNat d } := by
  have hall : ∀ d : Fin 10, (0x30 ≤ 0x30 + UInt8.ofNat d
      ∧ 0x30 + UInt8.ofNat d ≤ 0x39)
      ∧ (0x30 + UInt8.ofNat d).toNat - 48 = d := by
    decide
  obtain ⟨hdigit, hvalue⟩ := hall ⟨d, hd⟩
  dsimp only at hdigit hvalue
  unfold appCalcKey
  rw [if_pos hdigit, hvalue]

/-- More digits of a number. -/
theorem digits_run {ds : List Nat} (hds : ∀ d ∈ ds, d < 10) (n : Nat)
    (hfresh : s.fresh = false) (hcur : s.cur = Int32.ofNat n)
    (hdisp : s.disp = Int32.ofNat n) :
    execM appCalcKey s (digitKeys ds)
      = some { s with
          cur := Int32.ofNat (ds.foldl (fun v d => v * 10 + d) n)
          disp := Int32.ofNat (ds.foldl (fun v d => v * 10 + d) n) } := by
  induction ds generalizing s n with
  | nil =>
      obtain ⟨acc, cur, op, fresh, disp⟩ := s
      obtain rfl : cur = Int32.ofNat n := hcur
      obtain rfl : disp = Int32.ofNat n := hdisp
      rfl
  | cons d ds ih =>
      obtain ⟨hd, hrest⟩ := List.forall_mem_cons.mp hds
      have hnext : s.cur * 10 + Int32.ofNat d = Int32.ofNat (n * 10 + d) := by
        rw [hcur, Int32.ofNat_add, Int32.ofNat_mul]
        rfl
      unfold digitKeys
      rw [List.map_cons, execM_cons, digit_step s hd, hfresh,
        if_neg Bool.false_ne_true, hnext, Option.bind_some, List.foldl_cons]
      exact ih hrest (n * 10 + d) rfl rfl rfl

/-- A number typed where one is expected. -/
theorem number_run (n : Number) (hfresh : s.fresh = true) :
    execM appCalcKey s n.keys
      = some { s with
          cur := Int32.ofNat (value 10 n.digits), fresh := false
          disp := Int32.ofNat (value 10 n.digits) } := by
  obtain ⟨ds, hne, hdec⟩ := n
  cases ds with
  | nil => exact absurd rfl hne
  | cons d ds =>
      obtain ⟨hd, hrest⟩ := List.forall_mem_cons.mp hdec
      have hfirst : (0 : Int32) * 10 + Int32.ofNat d
          = Int32.ofNat (0 * 10 + d) := by
        rw [Int32.ofNat_add]
        rfl
      show execM appCalcKey s ((0x30 + UInt8.ofNat d) :: digitKeys ds) = _
      rw [execM_cons, digit_step s hd, hfresh, if_pos rfl, hfirst,
        Option.bind_some, digits_run hrest (0 * 10 + d) rfl rfl rfl]
      rfl

theorem toInt_number {n : Number} (h : InInt n.value) :
    (Int32.ofNat (value 10 n.digits)).toInt = n.value := by
  obtain ⟨-, hhigh⟩ := h
  unfold Number.value at hhigh ⊢
  exact Int32.toInt_ofNat_of_lt (by omega)

/-- An operator applies the pending operation and is pending then. -/
theorem operator_step (s : Calc) (op : Operator) :
    appCalcKey s op.key = s.result.map fun acc =>
      { s with acc := acc, op := op.key, fresh := true, disp := acc } := by
  cases op with
  | plus => rfl
  | minus => rfl
  | times => rfl
  | divide => rfl

/-- What an operator or an `=` would compute now. -/
def Stands (s : Calc) (v : Int) : Prop :=
  ∃ r, s.result = some r ∧ r.toInt = v

/-- Between two entries. -/
structure Answered (s : Calc) (v : Int) : Prop where
  op : s.op = 0
  fresh : s.fresh = true
  cur : s.cur.toInt = v
  disp : s.disp.toInt = v

theorem Answered.stands (h : Answered s v) : Stands s v := by
  refine ⟨s.cur, ?_, h.cur⟩
  unfold Calc.result
  rw [if_neg (not_not.mpr h.op)]

theorem answered_clear (s : Calc) :
    ∃ t, appCalcKey s clearKey = some t ∧ Answered t 0 :=
  ⟨calcOpen, rfl, rfl, rfl, rfl, rfl⟩

/-- An entry begins: with a number of its own, or with what there is. -/
theorem Answered.first (h : Answered s v) (n : Option Number)
    (hfits : InInt (start v n)) :
    ∃ t, execM appCalcKey s (firstKeys n) = some t
      ∧ Stands t (start v n) := by
  cases n with
  | none => exact ⟨s, rfl, h.stands⟩
  | some n =>
      refine ⟨_, number_run n h.fresh, _, ?_, toInt_number hfits⟩
      unfold Calc.result
      exact if_neg (not_not.mpr h.op)

/-- One more operator and number. -/
theorem Stands.more (h : Stands s v) (p : Operator × Number)
    (hnumber : InInt p.2.value) (hresult : InInt (more v p)) :
    ∃ t, execM appCalcKey s (moreKeys p) = some t
      ∧ Stands t (Gui.more v p) := by
  obtain ⟨op, n⟩ := p
  obtain ⟨r, hr, rfl⟩ := h
  have hkeys : execM appCalcKey s (moreKeys (op, n)) = some
      { s with
        acc := r, op := op.key, cur := Int32.ofNat (value 10 n.digits)
        fresh := false, disp := Int32.ofNat (value 10 n.digits) } := by
    unfold moreKeys
    rw [execM_cons, operator_step, hr, Option.map_some, Option.bind_some,
      number_run n rfl]
  have hvalue := toInt_number hnumber
  unfold Gui.more at hresult ⊢
  dsimp only at hresult hvalue ⊢
  rw [← hvalue] at hresult ⊢
  obtain ⟨r', hr', hint⟩ := calcApply_eq op r _ hresult
  refine ⟨_, hkeys, r', ?_, hint⟩
  have hop : op.key ≠ 0 := by
    cases op with
    | plus => decide
    | minus => decide
    | times => decide
    | divide => decide
  unfold Calc.result
  exact (if_pos hop).trans hr'

/-- All the operators and numbers of an entry. -/
theorem Stands.rest (h : Stands s v) {ps : List (Operator × Number)}
    (hfits : Along Gui.more
      (fun v p => InInt p.2.value ∧ InInt (Gui.more v p)) v ps) :
    ∃ t, execM appCalcKey s (ps.flatMap moreKeys) = some t
      ∧ Stands t (exec Gui.more v ps) := by
  induction ps generalizing s v with
  | nil => exact ⟨s, rfl, h⟩
  | cons p ps ih =>
      obtain ⟨⟨hnumber, hresult⟩, hlater⟩ := hfits
      obtain ⟨t, ht, hstands⟩ := h.more p hnumber hresult
      obtain ⟨u, hu, hlast⟩ := ih hstands hlater
      refine ⟨u, ?_, hlast⟩
      rw [List.flatMap_cons, execM_append, ht]
      exact hu

/-- The `=`. -/
theorem Stands.equals (h : Stands s v) :
    ∃ t, appCalcKey s equalsKey = some t ∧ Answered t v := by
  obtain ⟨r, hr, hv⟩ := h
  have hkey : appCalcKey s equalsKey
      = s.result.map fun acc => ⟨acc, acc, 0, true, acc⟩ := rfl
  rw [hkey, hr]
  exact ⟨_, rfl, rfl, rfl, hv, hv⟩

/-- An entry goes from one result to the next. -/
theorem Answered.entry (h : Answered s v) {e : Entry} (hfits : e.Fits v) :
    ∃ t, execM appCalcKey s e.keys = some t ∧ Answered t (e.result v) := by
  obtain ⟨hfirst, hrest⟩ := hfits
  obtain ⟨t, ht, hstands⟩ := h.first e.first hfirst
  obtain ⟨u, hu, hlast⟩ := hstands.rest hrest
  obtain ⟨w, hw, hanswered⟩ := hlast.equals
  refine ⟨w, ?_, hanswered⟩
  unfold Entry.keys
  rw [execM_append, execM_append, ht, Option.bind_some, hu, Option.bind_some,
    execM_cons, hw]
  rfl

/-- The run lemma. -/
theorem Answered.entries (h : Answered s v) {es : List Entry}
    (hfits : Along Entry.result (fun v e => e.Fits v) v es) :
    ∃ t, execM appCalcKey s (es.flatMap Entry.keys) = some t
      ∧ Answered t (exec Entry.result v es) := by
  induction es generalizing s v with
  | nil => exact ⟨s, rfl, h⟩
  | cons e es ih =>
      obtain ⟨hfirst, hlater⟩ := hfits
      obtain ⟨t, ht, hanswered⟩ := h.entry hfirst
      obtain ⟨u, hu, hlast⟩ := ih hanswered hlater
      refine ⟨u, ?_, hlast⟩
      rw [List.flatMap_cons, execM_append, ht]
      exact hu

end Keys

-- ================================================================ the result

/-- Whatever was on the calculator: after `C` and any entries in which
nothing leaves the range of a `long`, the display shows the result of the
last one, each worked out from left to right, from the number that it
starts with or else from the result before. -/
theorem calc_left_to_right (s : Calc) (es : List Entry)
    (hfits : Along Entry.result (fun v e => e.Fits v) 0 es) :
    ∃ t, execM appCalcKey s (clearKey :: es.flatMap Entry.keys) = some t
      ∧ t.Shows (exec Entry.result 0 es) := by
  obtain ⟨t, ht, hcleared⟩ := answered_clear s
  obtain ⟨u, hu, hanswered⟩ := hcleared.entries hfits
  refine ⟨u, ?_, (u.shows_iff _).mpr hanswered.disp⟩
  rw [execM_cons, ht]
  exact hu

/-- A number of one digit. -/
def Number.digit (d : Fin 10) : Number :=
  ⟨[d.val], List.cons_ne_nil _ _, fun _ he => List.mem_singleton.mp he ▸ d.isLt⟩

/-- `2+3*4=`, then `/0=`, then `7-9=`, then `/2=`. -/
def fourEntries : List Entry :=
  [⟨some (.digit 2), [(.plus, .digit 3), (.times, .digit 4)]⟩,
    ⟨none, [(.divide, .digit 0)]⟩, ⟨some (.digit 7), [(.minus, .digit 9)]⟩,
    ⟨none, [(.divide, .digit 2)]⟩]

/-- The display shows -1. -/
theorem calc_left_to_right_four :
    ∃ t, execM appCalcKey calcOpen
        (clearKey :: fourEntries.flatMap Entry.keys) = some t
      ∧ t.Shows (exec Entry.result 0 fourEntries) :=
  calc_left_to_right calcOpen fourEntries (by decide)

end Thuos.Gui
