/-
When the interface and the endpoint that `enumerate` picks belong
together.

The endpoint is the first interrupt-IN endpoint behind the first boot
interface, the interface of SET_PROTOCOL is the last of all, and the two
flags say of every interface whether it was a keyboard or a mouse. On a
device with one interface these agree. On a composite device the endpoint
may belong to an interface behind the boot interface, the last interface
may be another one, and both flags may be set; `SameInterface` says when
none of this happens.
-/
import Thuos.Usb.Proofs.Descriptors

namespace Thuos.Usb

section Claim

variable (cfg : Nat → Nat) (total : Nat)

/-- The size of a descriptor of the type, as the standard has it. -/
def standardSize (typ : Nat) : Nat :=
  if typ = 2 then 9 else if typ = 4 then 9 else if typ = 5 then 7 else 2

/-- The descriptors are as long as their types, and tile the total. -/
def WellFormed : Prop :=
  (∀ o ∈ visited cfg total, standardSize (cfg (o + 1)) ≤ cfg o)
    ∧ ((visited cfg total).map cfg).sum = total

instance : Decidable (WellFormed cfg total) :=
  inferInstanceAs (Decidable (_ ∧ _))

/-- The endpoint at `e`, behind the descriptors `os`, is the one that the
walk from `p` takes. -/
def Takes (p : Parsed) (os : List Nat) (e : Nat) : Prop :=
  (found cfg p os).epDci = 0 ∧ (found cfg p (os ++ [e])).epDci ≠ 0

/-- The endpoint taken lies behind a boot interface, with no interface in
between, the flags describe that interface, and the number that
SET_PROTOCOL is sent to is its number. -/
def Belong (p : Parsed) : Prop :=
  let r := parseConfig cfg total total 0 p
  ∃ pre i mid e post, visited cfg total = pre ++ i :: mid ++ e :: post
    ∧ Takes cfg p (pre ++ i :: mid) e
    ∧ Boot cfg i ∧ (∀ o ∈ mid, ¬ Interface cfg o)
    ∧ (r.isKbd = true ↔ cfg (i + 7) = 1)
    ∧ (r.isMouse = true ↔ cfg (i + 7) = 2)
    ∧ r.iface.getD 0 = cfg (i + 2)

/-- Of the interface before the first interrupt-IN endpoint behind a boot
interface: it is a boot interface itself, every boot interface of the
device has its protocol, and the last interface has its number. -/
def SameInterface : Prop :=
  ∀ os e post, visited cfg total = os ++ e :: post → firstIn cfg os = none →
    (∃ b ∈ os, Boot cfg b) → InterruptIn cfg e →
      ∃ pre i mid, os = pre ++ i :: mid ∧ (∀ o ∈ mid, ¬ Interface cfg o)
        ∧ Boot cfg i
        ∧ (∀ b ∈ visited cfg total, Boot cfg b → cfg (b + 7) = cfg (i + 7))
        ∧ ∀ b, ((visited cfg total).filter (Interface cfg ·)).getLast? = some b →
          cfg (b + 2) = cfg (i + 2)

end Claim

section Proof

variable {cfg : Nat → Nat} {total epLen : Nat}

/-- Starting with nothing found, an endpoint is the first there is. -/
theorem found_none (cfg : Nat → Nat) (epLen : Nat) (os : List Nat) :
    (found cfg (noneFound epLen) os).epDci ≠ 0 ↔ firstIn cfg os ≠ none :=
  found_dci_ne cfg rfl rfl rfl os

/-- The endpoint taken, by the descriptors alone. -/
theorem takes_iff (os : List Nat) (e : Nat) :
    Takes cfg (noneFound epLen) os e
      ↔ firstIn cfg os = none ∧ (∃ b ∈ os, Boot cfg b)
        ∧ InterruptIn cfg e := by
  have hdci := found_none cfg epLen
  have hnone := (hdci os).not
  rw [not_not, not_not] at hnone
  unfold Takes
  rw [hnone, hdci, firstIn_concat]
  constructor
  · rintro ⟨hfirst, hnext⟩
    rw [hfirst, Option.none_or] at hnext
    by_contra hno
    apply hnext
    exact if_neg fun h => hno ⟨hfirst, h⟩
  · rintro ⟨hfirst, hboot, hin⟩
    refine ⟨hfirst, ?_⟩
    rw [hfirst, if_pos ⟨hboot, hin⟩]
    simp

/-- Once an endpoint is found there is no other. -/
theorem firstIn_append {os : List Nat} (more : List Nat)
    (h : firstIn cfg os ≠ none) :
    firstIn cfg (os ++ more) ≠ none := by
  induction more using List.reverseRecOn with
  | nil => rwa [List.append_nil]
  | append_singleton more o ih =>
      rw [← List.append_assoc, firstIn_concat]
      cases hfirst : firstIn cfg (os ++ more) with
      | none => exact absurd hfirst ih
      | some e => simp

/-- One endpoint is taken. -/
theorem takes_unique {os os' post post' : List Nat} {e e' : Nat}
    (h : os ++ e :: post = os' ++ e' :: post')
    (ht : Takes cfg (noneFound epLen) os e)
    (ht' : Takes cfg (noneFound epLen) os' e') : os = os' ∧ e = e' := by
  have hdci := found_none cfg epLen
  -- behind an endpoint that was taken, none is
  have hshort : ∀ {os os' post post' : List Nat} {e e' : Nat},
      os ++ e :: post = os' ++ e' :: post' →
      Takes cfg (noneFound epLen) os e → Takes cfg (noneFound epLen) os' e' →
      os'.length ≤ os.length := by
    intro os os' post post' e e' h ht ht'
    by_contra hlt
    have hleft : os ++ [e] <+: os ++ e :: post := ⟨post, by simp⟩
    have hright : os' <+: os ++ e :: post := ⟨e' :: post', h.symm⟩
    have hpre : os ++ [e] <+: os' := by
      apply List.prefix_of_prefix_length_le hleft hright
      rw [List.length_append, List.length_singleton]
      omega
    obtain ⟨more, rfl⟩ := hpre
    have hsome := firstIn_append more ((hdci _).mp ht.2)
    exact hsome ((takes_iff _ _).mp ht').1
  have hlen : os.length = os'.length :=
    Nat.le_antisymm (hshort h.symm ht' ht) (hshort h ht ht')
  obtain ⟨hos, htail⟩ := List.append_inj h hlen
  exact ⟨hos, (List.cons.inj htail).1⟩

/-- An endpoint was found where one is taken. -/
theorem accepted_iff :
    (parseConfig cfg total total 0 (noneFound epLen)).epDci ≠ 0
      ↔ ∃ os e post, visited cfg total = os ++ e :: post
        ∧ Takes cfg (noneFound epLen) os e := by
  have hdci := found_none cfg epLen
  rw [parseConfig_eq]
  show (found cfg (noneFound epLen) (visited cfg total)).epDci ≠ 0 ↔ _
  generalize visited cfg total = vs
  constructor
  · intro h
    induction vs using List.reverseRecOn with
    | nil => exact absurd rfl h
    | append_singleton vs o ih =>
        by_cases hbefore : (found cfg (noneFound epLen) vs).epDci = 0
        · exact ⟨vs, o, [], rfl, hbefore, h⟩
        · obtain ⟨os, e, post, rfl, ht⟩ := ih hbefore
          exact ⟨os, e, post ++ [o], by simp, ht⟩
  · rintro ⟨os, e, post, rfl, -, ht⟩
    have hsplit : os ++ e :: post = os ++ [e] ++ post := by simp
    rw [hdci, hsplit]
    exact firstIn_append post ((hdci _).mp ht)

/-- The flags describe a boot interface exactly when all boot interfaces
have its protocol. -/
theorem flags_iff (epLen : Nat) {vs : List Nat} {i : Nat} (hi : i ∈ vs)
    (hboot : Boot cfg i) :
    (((found cfg (noneFound epLen) vs).isKbd = true ↔ cfg (i + 7) = 1)
      ∧ ((found cfg (noneFound epLen) vs).isMouse = true ↔ cfg (i + 7) = 2))
    ↔ ∀ b ∈ vs, Boot cfg b → cfg (b + 7) = cfg (i + 7) := by
  obtain ⟨hself, hproto⟩ := hboot.proto
  have hany : ∀ n, vs.any (BootOf cfg n ·) = true
      ↔ ∃ b ∈ vs, BootOf cfg n b := by
    intro n
    simp
  rw [found_kbd, found_mouse]
  show ((false || vs.any (BootOf cfg 1 ·)) = true ↔ _)
    ∧ ((false || vs.any (BootOf cfg 2 ·)) = true ↔ _) ↔ _
  rw [Bool.false_or, Bool.false_or, hany, hany]
  constructor
  · rintro ⟨hkbd, hmouse⟩ b hb hbb
    obtain ⟨hbof, h | h⟩ := hbb.proto
    · rw [h] at hbof ⊢
      exact (hkbd.mp ⟨b, hb, hbof⟩).symm
    · rw [h] at hbof ⊢
      exact (hmouse.mp ⟨b, hb, hbof⟩).symm
  · intro hall
    refine ⟨⟨?_, ?_⟩, ⟨?_, ?_⟩⟩
    · rintro ⟨b, hb, hbof⟩
      rw [← hall b hb (Or.inl hbof)]
      exact hbof.2.2
    · intro h
      rw [h] at hself
      exact ⟨i, hi, hself⟩
    · rintro ⟨b, hb, hbof⟩
      rw [← hall b hb (Or.inr hbof)]
      exact hbof.2.2
    · intro h
      rw [h] at hself
      exact ⟨i, hi, hself⟩

/-- The number sent is that of an interface exactly when the last one has
it. -/
theorem number_iff (epLen : Nat) {vs : List Nat} {i : Nat} (hi : i ∈ vs)
    (hface : Interface cfg i) :
    (found cfg (noneFound epLen) vs).iface.getD 0 = cfg (i + 2)
      ↔ ∀ b, (vs.filter (Interface cfg ·)).getLast? = some b →
          cfg (b + 2) = cfg (i + 2) := by
  rw [found_iface rfl]
  cases hlast : (vs.filter (Interface cfg ·)).getLast? with
  | none =>
      rw [List.getLast?_eq_none_iff] at hlast
      have hmem : i ∈ vs.filter (Interface cfg ·) := by simp [hi, hface]
      rw [hlast] at hmem
      exact absurd hmem List.not_mem_nil
  | some b => simp

/-- An endpoint that is accepted belongs to the interface used exactly when
the descriptors are about the same interface. -/
theorem interface_endpoint_iff (cfg : Nat → Nat) (total epLen : Nat) :
    ((parseConfig cfg total total 0 (noneFound epLen)).epDci ≠ 0 →
        Belong cfg total (noneFound epLen))
      ↔ SameInterface cfg total := by
  have hr : parseConfig cfg total total 0 (noneFound epLen)
      = found cfg (noneFound epLen) (visited cfg total) := parseConfig_eq ..
  constructor
  · intro h os e post hvs hfirst hboot hin
    have ht : Takes cfg (noneFound epLen) os e :=
      (takes_iff os e).mpr ⟨hfirst, hboot, hin⟩
    obtain ⟨pre, i, mid, e', post', hvs', ht', hbi, hmid, hkbd, hmouse,
      hnum⟩ := h (accepted_iff.mpr ⟨os, e, post, hvs, ht⟩)
    obtain ⟨rfl, rfl⟩ := takes_unique (hvs.symm.trans hvs') ht ht'
    have hmem : i ∈ visited cfg total := by
      rw [hvs]
      simp
    rw [hr] at hkbd hmouse hnum
    exact ⟨pre, i, mid, rfl, hmid, hbi,
      (flags_iff epLen hmem hbi).mp ⟨hkbd, hmouse⟩,
      (number_iff epLen hmem (boot_interface hbi)).mp hnum⟩
  · intro h haccepted
    obtain ⟨os, e, post, hvs, ht⟩ := accepted_iff.mp haccepted
    obtain ⟨hfirst, hboot, hin⟩ := (takes_iff os e).mp ht
    obtain ⟨pre, i, mid, rfl, hmid, hbi, hall, hlast⟩ :=
      h os e post hvs hfirst hboot hin
    have hmem : i ∈ visited cfg total := by
      rw [hvs]
      simp
    obtain ⟨hkbd, hmouse⟩ := (flags_iff epLen hmem hbi).mpr hall
    have hnum := (number_iff epLen hmem
      (boot_interface hbi)).mpr hlast
    rw [← hr] at hkbd hmouse hnum
    exact ⟨pre, i, mid, e, post, hvs, ht, hbi, hmid, hkbd, hmouse, hnum⟩

/-- A keyboard with a second interface for its media keys, number 1. -/
def compositeKeyboard : List UInt8 :=
  [9, 2, 59, 0, 2, 1, 0, 0xA0, 50]
    ++ [9, 4, 0, 0, 1, 3, 1, 1, 0] ++ [9, 0x21, 0x11, 1, 0, 1, 0x22, 65, 0]
    ++ [7, 5, 0x81, 3, 8, 0, 10]
    ++ [9, 4, 1, 0, 1, 3, 0, 0, 0] ++ [9, 0x21, 0x11, 1, 0, 1, 0x22, 99, 0]
    ++ [7, 5, 0x82, 3, 8, 0, 10]

/-- Its endpoint is that of interface 0, and SET_PROTOCOL goes to 1. -/
theorem compositeKeyboard_apart :
    let cfg := fun o => (compositeKeyboard.getD o 0).toNat
    WellFormed cfg 59
      ∧ (parseConfig cfg 59 59 0 (noneFound 0)).epDci ≠ 0
      ∧ ¬ Belong cfg 59 (noneFound 0) := by
  intro cfg
  refine ⟨by decide, by decide, ?_⟩
  rintro ⟨pre, i, mid, e, post, hvs, -, hboot, -, -, -, hnum⟩
  have hmem : i ∈ visited cfg 59 := by
    rw [hvs]
    simp
  have hsent : (parseConfig cfg 59 59 0 (noneFound 0)).iface.getD 0 = 1 := by
    decide
  have hzero : ∀ b ∈ visited cfg 59, Boot cfg b → cfg (b + 2) = 0 := by
    decide
  rw [hsent, hzero i hmem hboot] at hnum
  cases hnum

end Proof

end Thuos.Usb
