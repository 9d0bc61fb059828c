/-
The walk over a configuration descriptor.

The loop steps from descriptor to descriptor by their lengths, whatever
they are, so what it finds is a fold over the offsets it visits
(`parseConfig_eq`).

The four things that it finds are independent of each other: whether any
interface was a boot keyboard, or a boot mouse; the last interface; the
first interrupt-IN endpoint behind the first boot interface
(`found_kbd` to `found_dci`).
-/
import Thuos.Usb.Xhci

namespace Thuos.Usb

-- ============================================================= the descriptors

section Kinds

variable (cfg : Nat → Nat)

/-- The descriptor at `o` is an interface. -/
def Interface (o : Nat) : Prop := cfg (o + 1) = 4

/-- It is a boot interface of the protocol: 1 is a keyboard, 2 a mouse. -/
def BootOf (proto o : Nat) : Prop :=
  Interface cfg o ∧ cfg (o + 5) = 3 ∧ cfg (o + 7) = proto

def Boot (o : Nat) : Prop := BootOf cfg 1 o ∨ BootOf cfg 2 o

/-- It is an interrupt-IN endpoint. -/
def InterruptIn (o : Nat) : Prop :=
  cfg (o + 1) = 5 ∧ cfg (o + 2) &&& 0x80 ≠ 0 ∧ cfg (o + 3) &&& 0x3 = 3

instance (o : Nat) : Decidable (Interface cfg o) :=
  inferInstanceAs (Decidable (_ = _))

instance (proto o : Nat) : Decidable (BootOf cfg proto o) :=
  inferInstanceAs (Decidable (_ ∧ _))

instance (o : Nat) : Decidable (Boot cfg o) :=
  inferInstanceAs (Decidable (_ ∨ _))

instance (o : Nat) : Decidable (InterruptIn cfg o) :=
  inferInstanceAs (Decidable (_ ∧ _))

/-- The context index of the endpoint. -/
def dciAt (o : Nat) : Nat := (cfg (o + 2) &&& 0xF) * 2 + 1

/-- The first interrupt-IN endpoint behind the first boot interface. -/
def firstIn : List Nat → Option Nat
  | [] => none
  | o :: os => if Boot cfg o then os.find? (InterruptIn cfg ·) else firstIn os

variable (total : Nat)

/-- The offsets that the loop visits in at most `n` turns from `o` on. -/
def visitedFrom : Nat → Nat → List Nat
  | 0, _ => []
  | n + 1, o =>
      if o + 2 ≤ total then
        if cfg o = 0 then [] else o :: visitedFrom n (o + cfg o)
      else []

/-- The offsets of the descriptors, each the length of the one before it
further on. -/
def visited : List Nat := visitedFrom cfg total total 0

/-- What the walk starts with. -/
def noneFound (epLen : Nat) : Parsed := ⟨none, false, false, 0, epLen⟩

/-- What is found at the offsets, in order. -/
def found (p : Parsed) (os : List Nat) : Parsed :=
  os.foldl (fun p o => parseOne cfg o p) p

end Kinds

section Walk

variable {cfg : Nat → Nat} {total : Nat} {p : Parsed}

theorem found_concat (os : List Nat) (o : Nat) :
    found cfg p (os ++ [o]) = parseOne cfg o (found cfg p os) :=
  List.foldl_append

/-- The loop, as a fold. -/
theorem parseConfig_eq (n o : Nat) (p : Parsed) :
    parseConfig cfg total n o p = found cfg p (visitedFrom cfg total n o) := by
  induction n generalizing o p with
  | zero => rfl
  | succ n ih =>
      unfold parseConfig visitedFrom
      split
      · split
        · rfl
        · rw [ih]
          rfl
      · rfl

end Walk

-- ================================================================ the findings

section Findings

variable {cfg : Nat → Nat} {p : Parsed}

theorem boot_interface {o : Nat} (h : Boot cfg o) : Interface cfg o :=
  h.elim And.left And.left

/-- A boot interface has one protocol. -/
theorem Boot.proto {o : Nat} (h : Boot cfg o) :
    BootOf cfg (cfg (o + 7)) o ∧ (cfg (o + 7) = 1 ∨ cfg (o + 7) = 2) := by
  rcases h with ⟨hi, hc, hp⟩ | ⟨hi, hc, hp⟩
  · exact ⟨⟨hi, hc, rfl⟩, Or.inl hp⟩
  · exact ⟨⟨hi, hc, rfl⟩, Or.inr hp⟩

/-- What one descriptor adds. -/
theorem parseOne_eq (o : Nat) (p : Parsed) :
    (parseOne cfg o p).isKbd = (p.isKbd || decide (BootOf cfg 1 o))
      ∧ (parseOne cfg o p).isMouse = (p.isMouse || decide (BootOf cfg 2 o))
      ∧ (parseOne cfg o p).iface
        = (if Interface cfg o then some (cfg (o + 2)) else p.iface)
      ∧ (parseOne cfg o p).epDci
        = if p.epDci = 0 ∧ (p.isKbd ∨ p.isMouse) ∧ InterruptIn cfg o then
            dciAt cfg o
          else p.epDci := by
  unfold parseOne BootOf Interface InterruptIn dciAt
  by_cases hface : cfg (o + 1) = 4
  · rw [if_pos hface]
    dsimp only
    by_cases hclass : cfg (o + 5) = 3
    · rw [if_pos hclass]
      by_cases hkbd : cfg (o + 7) = 1
      · rw [if_pos hkbd]
        simp [hface, hclass, hkbd]
      · rw [if_neg hkbd]
        by_cases hmouse : cfg (o + 7) = 2
        · rw [if_pos hmouse]
          simp [hface, hclass, hmouse]
        · rw [if_neg hmouse]
          simp [hface, hkbd, hmouse]
    · rw [if_neg hclass]
      simp [hface, hclass]
  · rw [if_neg hface]
    by_cases hep : cfg (o + 1) = 5 ∧ (p.isKbd ∨ p.isMouse)
    · rw [if_pos hep]
      dsimp only
      split
      · next hin =>
          obtain ⟨hdir, hattr, hnone⟩ := hin
          simp [hep.1, hep.2, hdir, hattr, hnone]
      · next hin =>
          simp only [hface, false_and, decide_false, Bool.or_false, if_false,
            true_and]
          rw [if_neg]
          rintro ⟨hnone, -, -, hdir, hattr⟩
          exact hin ⟨hdir, hattr, hnone⟩
    · rw [if_neg hep]
      simp only [hface, false_and, decide_false, Bool.or_false, if_false,
        true_and]
      rw [if_neg]
      rintro ⟨-, hboot, h5, -⟩
      exact hep ⟨h5, hboot⟩

theorem found_kbd (os : List Nat) :
    (found cfg p os).isKbd = (p.isKbd || os.any (BootOf cfg 1 ·)) := by
  induction os using List.reverseRecOn with
  | nil => simp [found]
  | append_singleton os o ih =>
      rw [found_concat, (parseOne_eq o _).1, ih]
      simp [Bool.or_assoc]

theorem found_mouse (os : List Nat) :
    (found cfg p os).isMouse = (p.isMouse || os.any (BootOf cfg 2 ·)) := by
  induction os using List.reverseRecOn with
  | nil => simp [found]
  | append_singleton os o ih =>
      rw [found_concat, (parseOne_eq o _).2.1, ih]
      simp [Bool.or_assoc]

/-- The last interface. -/
theorem found_iface (hp : p.iface = none) (os : List Nat) :
    (found cfg p os).iface
      = ((os.filter (Interface cfg ·)).getLast?).map fun o => cfg (o + 2) := by
  induction os using List.reverseRecOn with
  | nil => exact hp
  | append_singleton os o ih =>
      rw [found_concat, (parseOne_eq o _).2.2.1, ih, List.filter_append]
      by_cases hface : Interface cfg o
      · simp [hface]
      · simp [hface]

/-- One more descriptor behind those where the endpoint was sought. -/
theorem firstIn_concat (os : List Nat) (o : Nat) :
    firstIn cfg (os ++ [o]) = (firstIn cfg os).or
      (if (∃ b ∈ os, Boot cfg b) ∧ InterruptIn cfg o then some o
        else none) := by
  induction os with
  | nil =>
      by_cases hboot : Boot cfg o
      · simp [firstIn, hboot]
      · simp [firstIn, hboot]
  | cons b os ih =>
      rw [List.cons_append]
      unfold firstIn
      by_cases hboot : Boot cfg b
      · rw [if_pos hboot, if_pos hboot, List.find?_append]
        by_cases hin : InterruptIn cfg o
        · simp [hboot, hin]
        · simp [hin]
      · rw [if_neg hboot, if_neg hboot, ih]
        simp [hboot]

/-- The flags together say whether there was a boot interface. -/
theorem found_boot (cfg : Nat → Nat) (hkbd : p.isKbd = false)
    (hmouse : p.isMouse = false) (os : List Nat) :
    ((found cfg p os).isKbd ∨ (found cfg p os).isMouse)
      ↔ ∃ b ∈ os, Boot cfg b := by
  rw [found_kbd, found_mouse, hkbd, hmouse]
  simp only [Bool.false_or, List.any_eq_true, decide_eq_true_eq]
  constructor
  · rintro (⟨b, hb, hk⟩ | ⟨b, hb, hm⟩)
    · exact ⟨b, hb, Or.inl hk⟩
    · exact ⟨b, hb, Or.inr hm⟩
  · rintro ⟨b, hb, hk | hm⟩
    · exact Or.inl ⟨b, hb, hk⟩
    · exact Or.inr ⟨b, hb, hm⟩

/-- The endpoint. -/
theorem found_dci (hkbd : p.isKbd = false) (hmouse : p.isMouse = false)
    (hdci : p.epDci = 0) (os : List Nat) :
    (found cfg p os).epDci = ((firstIn cfg os).map (dciAt cfg)).getD 0 := by
  induction os using List.reverseRecOn with
  | nil => exact hdci
  | append_singleton os o ih =>
      have hboot := found_boot cfg hkbd hmouse os
      rw [found_concat, (parseOne_eq o _).2.2.2, ih, firstIn_concat]
      cases hfirst : firstIn cfg os with
      | none =>
          by_cases hin : (∃ b ∈ os, Boot cfg b) ∧ InterruptIn cfg o
          · simp [hboot, hin]
          · simp [hboot, hin]
      | some e => simp [dciAt]

/-- An endpoint was found if its index is not 0. -/
theorem found_dci_ne (cfg : Nat → Nat) (hkbd : p.isKbd = false)
    (hmouse : p.isMouse = false) (hdci : p.epDci = 0) (os : List Nat) :
    (found cfg p os).epDci ≠ 0 ↔ firstIn cfg os ≠ none := by
  rw [found_dci hkbd hmouse hdci]
  cases firstIn cfg os with
  | none => simp
  | some e => simp [dciAt]

end Findings

end Thuos.Usb
