/-
When a key press is one character.

`hid_handle` injects a character for every key byte that is not in the
report before. That is one character for a press unless a key byte is
repeated in a report, or a key is held while the keyboard reports a
rollover error: the error takes the place of the report before, and the
report behind it looks as if all its keys were pressed again.

The tables give every usage a character of its own (`charOf_inj`), so the
characters injected count the key bytes (`injected_count`).
-/
import Thuos.Usb.Hid

namespace Thuos.Usb

-- ============================================================== the property

section Claim

/-- A Shift bit is set in the report. -/
def ShiftHeld (r : List UInt8) : Prop := reportByte r 0 &&& 0x22 ≠ 0

instance (r : List UInt8) : Decidable (ShiftHeld r) :=
  inferInstanceAs (Decidable (_ ≠ _))

/-- The character of usage `k` in one of the tables. -/
def charOf (shift : Bool) (k : UInt8) : Option Char :=
  if shift then hidShift k else hidMap k

/-- A rollover error: too many keys are down to be reported. -/
def Rollover (r : List UInt8) : Prop := keyBytes r = List.replicate 6 1

instance (r : List UInt8) : Decidable (Rollover r) :=
  inferInstanceAs (Decidable (_ = _))

/-- What `prev` is at first. -/
def noReport : List UInt8 := List.replicate 8 0

/-- `prev` once the keyboard's reports are handled. -/
def prevAfter (rs : List (List UInt8)) : List UInt8 :=
  rs.foldl (fun prev r => (hidReport true false prev r).2) noReport

/-- What is injected at `r`, behind the reports before it. -/
def injectedAt (before : List (List UInt8)) (r : List UInt8) : List Input :=
  (hidReport true false (prevAfter before) r).1

/-- The last of the reports. -/
def lastReport (rs : List (List UInt8)) : List UInt8 :=
  rs.getLast?.getD noReport

/-- The last of the reports that was no rollover error. -/
def lastProper (rs : List (List UInt8)) : List UInt8 :=
  lastReport (rs.filter fun r => ¬ Rollover r)

/-- Key `k` is pressed at `r`. -/
def Pressed (before : List (List UInt8)) (r : List UInt8) (k : UInt8) : Prop :=
  k ∈ keyBytes r ∧ k ∉ keyBytes (lastProper before)

instance (before : List (List UInt8)) (r : List UInt8) (k : UInt8) :
    Decidable (Pressed before r k) :=
  inferInstanceAs (Decidable (_ ∧ _))

/-- Of the characters that a key has, the one for the Shift bits of the
report is injected once at a press, and no other. -/
def OncePerPress (before : List (List UInt8)) (r : List UInt8) : Prop :=
  ∀ shift k c, charOf shift k = some c →
    (injectedAt before r).count (.key c)
      = if Pressed before r k ∧ charOf (ShiftHeld r) k = some c then 1 else 0

/-- Each key of `r` that has a character and is not in the report before
is named once, and was not down before an error either. -/
def Plain (before : List (List UInt8)) (r : List UInt8) : Prop :=
  ∀ k ∈ keyBytes r, hidMap k ≠ none → k ∉ keyBytes (lastReport before) →
    (keyBytes r).count k = 1 ∧ k ∉ keyBytes (lastProper before)

end Claim

-- ================================================================ the tables

section Tables

theorem mem_of_lookup {es : List (Nat × Char)} {k : Nat} {c : Char}
    (h : es.lookup k = some c) : (k, c) ∈ es := by
  obtain ⟨before, after, rfl, -⟩ := List.lookup_eq_some_iff.mp h
  simp

/-- The entries of one of the tables. -/
def entries (shift : Bool) : List (Nat × Char) :=
  if shift then hidShiftEntries else hidMapEntries

theorem charOf_mem {shift : Bool} {k : UInt8} {c : Char}
    (h : charOf shift k = some c) : (k.toNat, c) ∈ entries shift := by
  cases shift with
  | false => exact mem_of_lookup h
  | true => exact mem_of_lookup h

/-- No two usages share a character. -/
theorem charOf_inj {s s' : Bool} {k k' : UInt8} {c : Char}
    (h : charOf s k = some c) (h' : charOf s' k' = some c) : k = k' := by
  have hall : ∀ s s', ∀ e ∈ entries s, ∀ e' ∈ entries s', e.2 = e'.2 →
      e.1 = e'.1 := by
    decide +kernel
  apply UInt8.toNat_inj.mp
  exact hall s s' _ (charOf_mem h) _ (charOf_mem h') rfl

/-- Usages with a character are below 128, neither 0 nor the 1 of a
rollover error. -/
theorem charOf_range {s : Bool} {k : UInt8} {c : Char}
    (h : charOf s k = some c) : k ≠ 0 ∧ k < 128 ∧ k ≠ 1 := by
  have hall : ∀ s, ∀ e ∈ entries s, 1 < e.1 ∧ e.1 < 128 := by
    decide +kernel
  obtain ⟨hlo, hhi⟩ := hall s _ (charOf_mem h)
  refine ⟨?_, UInt8.lt_iff_toNat_lt.mpr hhi, ?_⟩
  · rintro rfl
    cases hlo
  · rintro rfl
    exact absurd rfl (Nat.ne_of_lt hlo)

/-- The tables have characters for the same usages. -/
theorem charOf_isSome (s s' : Bool) (k : UInt8) :
    (charOf s k).isSome = (charOf s' k).isSome := by
  have hall : ∀ n < 256, (hidMapEntries.lookup n).isSome
      = (hidShiftEntries.lookup n).isSome := by
    decide +kernel
  have hk := hall k.toNat k.toNat_lt
  cases s with
  | false =>
      cases s' with
      | false => rfl
      | true => exact hk
  | true =>
      cases s' with
      | false => exact hk.symm
      | true => rfl

end Tables

-- ============================================================== the reports

section Reports

/-- A report that is kept has the same key bytes. -/
theorem keyBytes_kept (r : List UInt8) :
    keyBytes ((List.range 8).map (reportByte r)) = keyBytes r := by
  unfold keyBytes
  refine List.map_congr_left fun i hi => ?_
  have hlt : i < 8 := by
    obtain ⟨-, hlt⟩ := List.mem_range'_1.mp hi
    exact hlt
  unfold reportByte
  simp [hlt]

/-- `prev` has the key bytes of the last report. -/
theorem keyBytes_prevAfter (rs : List (List UInt8)) :
    keyBytes (prevAfter rs) = keyBytes (lastReport rs) := by
  induction rs using List.reverseRecOn with
  | nil => rfl
  | append_singleton rs r ih =>
      unfold prevAfter lastReport
      rw [List.foldl_append, List.getLast?_concat]
      exact keyBytes_kept r

/-- Behind a report that is no error, the last proper one is the last. -/
theorem lastProper_eq {rs : List (List UInt8)}
    (h : ¬ Rollover (lastReport rs)) : lastProper rs = lastReport rs := by
  induction rs using List.reverseRecOn with
  | nil => rfl
  | append_singleton rs r ih =>
      have hr : ¬ Rollover r := by
        unfold lastReport at h
        rwa [List.getLast?_concat] at h
      unfold lastProper lastReport
      rw [List.filter_append]
      simp [hr]

/-- A key that has a character and was in the last report was in the last
proper one. -/
theorem mem_lastProper {rs : List (List UInt8)} {s : Bool} {k : UInt8}
    {c : Char} (hk : charOf s k = some c)
    (hmem : k ∈ keyBytes (lastReport rs)) : k ∈ keyBytes (lastProper rs) := by
  rw [lastProper_eq]
  · exact hmem
  · intro hroll
    rw [hroll] at hmem
    exact (charOf_range hk).2.2 (List.eq_of_mem_replicate hmem)

theorem inPrev_prevAfter (before : List (List UInt8)) (k : UInt8) :
    inPrev (prevAfter before) k = false
      ↔ k ∉ keyBytes (lastReport before) := by
  unfold inPrev
  rw [keyBytes_prevAfter]
  simp

/-- The table that a key is looked up in is that of the Shift bits. -/
theorem pressedKeys_eq (prev r : List UInt8) :
    pressedKeys prev r = (keyBytes r).filterMap fun k =>
      if k ≠ 0 ∧ k < 128 ∧ inPrev prev k = false then
        charOf (ShiftHeld r) k
      else none := by
  refine List.filterMap_congr fun k _ => ?_
  have hchar : charOf (ShiftHeld r) k
      = if ShiftHeld r then hidShift k else hidMap k := by
    simp [charOf]
  rw [hchar]
  rfl

theorem count_injected (before : List (List UInt8)) (r : List UInt8)
    (c : Char) :
    (injectedAt before r).count (.key c)
      = (pressedKeys (prevAfter before) r).count c := by
  show List.count (Input.key c) (List.map Input.key _) = _
  apply List.count_map_of_injective
  intro a b h
  exact Input.key.inj h

/-- How often a character is injected: as often as its key is named, if
the key is not in the report before and has it in the table. -/
theorem injected_count (before : List (List UInt8)) (r : List UInt8)
    {s : Bool} {k : UInt8} {c : Char} (hk : charOf s k = some c) :
    (injectedAt before r).count (.key c)
      = if k ∉ keyBytes (lastReport before)
          ∧ charOf (ShiftHeld r) k = some c then
          (keyBytes r).count k
        else 0 := by
  rw [count_injected, pressedKeys_eq, List.count_filterMap]
  by_cases hnew : k ∉ keyBytes (lastReport before)
      ∧ charOf (ShiftHeld r) k = some c
  · rw [if_pos hnew, List.count_eq_countP]
    refine List.countP_congr fun a _ => ?_
    obtain ⟨h0, hlt, -⟩ := charOf_range hk
    rw [beq_iff_eq, beq_iff_eq]
    constructor
    · intro ha
      split at ha
      · exact charOf_inj ha hk
      · cases ha
    · intro heq
      rw [heq, if_pos ⟨h0, hlt, (inPrev_prevAfter before k).mpr hnew.1⟩]
      exact hnew.2
  · rw [if_neg hnew, List.countP_eq_zero]
    intro a _ ha
    rw [beq_iff_eq] at ha
    split at ha
    · next hpress =>
        obtain rfl := charOf_inj ha hk
        exact hnew ⟨(inPrev_prevAfter before a).mp hpress.2.2, ha⟩
    · cases ha

/-- One report. -/
theorem oncePerPress_iff (before : List (List UInt8)) (r : List UInt8) :
    OncePerPress before r ↔ Plain before r := by
  constructor
  · intro h k hmem hchar hnew
    obtain ⟨c, hc⟩ : ∃ c, charOf (ShiftHeld r) k = some c := by
      rw [← Option.isSome_iff_exists, charOf_isSome _ false]
      exact Option.isSome_iff_ne_none.mpr hchar
    have hcount := h _ k c hc
    rw [injected_count before r hc, if_pos ⟨hnew, hc⟩] at hcount
    have hpos : 0 < (keyBytes r).count k := List.count_pos_iff.mpr hmem
    split at hcount
    · next hpress => exact ⟨hcount, hpress.1.2⟩
    · omega
  · intro h s k c hk
    rw [injected_count before r hk]
    by_cases hc : charOf (ShiftHeld r) k = some c
    · by_cases hmem : k ∈ keyBytes r
      · by_cases hnew : k ∈ keyBytes (lastReport before)
        · -- held since the last report, so since the last proper one
          have hheld := mem_lastProper hk hnew
          rw [if_neg fun hno => hno.1 hnew, if_neg fun hno => hno.1.2 hheld]
        · have hsome : hidMap k ≠ none := by
            rw [← Option.isSome_iff_ne_none]
            show (charOf false k).isSome
            rw [charOf_isSome false s, hk]
            rfl
          obtain ⟨hone, hproper⟩ := h k hmem hsome hnew
          rw [if_pos ⟨hnew, hc⟩, if_pos ⟨⟨hmem, hproper⟩, hc⟩, hone]
      · rw [List.count_eq_zero.mpr hmem, ite_self,
          if_neg fun hpress => hmem hpress.1.1]
    · rw [if_neg fun hno => hc hno.2, if_neg fun hno => hc hno.2]

end Reports

-- ================================================================ the result

/-- In a run, every press is one character exactly when every report is
plain. -/
theorem one_per_press_iff (rs : List (List UInt8)) :
    (∀ before r after, rs = before ++ r :: after → OncePerPress before r)
      ↔ ∀ before r after, rs = before ++ r :: after → Plain before r := by
  constructor
  · intro h before r after hrs
    exact (oncePerPress_iff before r).mp (h before r after hrs)
  · intro h before r after hrs
    exact (oncePerPress_iff before r).mpr (h before r after hrs)

/-- The `a` key is held, while many more go down and up again. -/
def heldThroughError : List (List UInt8) :=
  [[0, 0, 4, 0, 0, 0, 0, 0], [0, 0, 1, 1, 1, 1, 1, 1],
    [0, 0, 4, 0, 0, 0, 0, 0]]

/-- It is injected a second time. -/
theorem held_key_repeated :
    ¬ ∀ before r after, heldThroughError = before ++ r :: after →
      OncePerPress before r := by
  intro h
  have honce := h (heldThroughError.take 2) [0, 0, 4, 0, 0, 0, 0, 0] [] rfl
    false 4 'a' (by decide)
  exact absurd honce (by decide)

end Thuos.Usb
