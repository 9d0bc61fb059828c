/-
Which bytes the walk over a configuration descriptor reads.

`Fetch` is a computation over a buffer that notes the offsets it reads, in
order. `fetchConfig` is the loop of `enumerate` written in it; its value
is that of `parseConfig`. The guard of the loop covers the first two bytes
of a descriptor and no others, so a read lies outside the total exactly
where a field that the loop looks at does (`FieldsFit`): the loop never
compares the length of a descriptor, or that of its type, with what is
left.
-/
import Thuos.Usb.Proofs.Descriptors

namespace Thuos.Usb

-- ============================================================= noting reads

/-- A value read from a buffer, and the offsets read for it. -/
structure Fetch (α : Type) where
  run : (Nat → Nat) → α × List Nat

namespace Fetch

variable {α β : Type}

instance : Monad Fetch where
  pure a := ⟨fun _ => (a, [])⟩
  bind m f := ⟨fun cfg =>
    let (a, os) := m.run cfg
    let (b, os') := (f a).run cfg
    (b, os ++ os')⟩

/-- `cfg[o]`. -/
def byte (o : Nat) : Fetch Nat := ⟨fun cfg => (cfg o, [o])⟩

@[simp] theorem run_byte (o : Nat) (cfg : Nat → Nat) :
    (byte o).run cfg = (cfg o, [o]) := rfl

@[simp] theorem run_pure (a : α) (cfg : Nat → Nat) :
    (pure a : Fetch α).run cfg = (a, []) := rfl

@[simp] theorem run_bind (m : Fetch α) (f : α → Fetch β) (cfg : Nat → Nat) :
    (m >>= f).run cfg
      = (((f (m.run cfg).1).run cfg).1,
        (m.run cfg).2 ++ ((f (m.run cfg).1).run cfg).2) := rfl

@[simp] theorem run_ite (c : Prop) [Decidable c] (m n : Fetch α)
    (cfg : Nat → Nat) :
    (if c then m else n).run cfg = if c then m.run cfg else n.run cfg :=
  apply_ite (fun m => run m cfg) c m n

end Fetch

-- =================================================================== the loop

/-- The body of the loop for the type `typ`, behind the length check. -/
def fetchOne (o typ : Nat) (p : Parsed) : Fetch Parsed :=
  if typ = 4 then do
    let iface ← Fetch.byte (o + 2)
    let p := { p with iface := some iface }
    let cls ← Fetch.byte (o + 5)
    if cls = 3 then do
      let proto ← Fetch.byte (o + 7)
      if proto = 1 then pure { p with isKbd := true }
      else do
        let proto ← Fetch.byte (o + 7)
        if proto = 2 then pure { p with isMouse := true } else pure p
    else pure p
  else if typ = 5 ∧ (p.isKbd ∨ p.isMouse) then do
    let addr ← Fetch.byte (o + 2)
    let attr ← Fetch.byte (o + 3)
    if addr &&& 0x80 ≠ 0 ∧ attr &&& 0x3 = 3 ∧ p.epDci = 0 then do
      let len ← Fetch.byte (o + 4)
      pure { p with
        epDci := (addr &&& 0xF) * 2 + 1
        epLen := if len = 0 ∨ len > 8 then 8 else len }
    else pure p
  else pure p

/-- The loop. -/
def fetchConfig (total : Nat) : Nat → Nat → Parsed → Fetch Parsed
  | 0, _, p => pure p
  | n + 1, o, p =>
      if o + 2 ≤ total then do
        let len ← Fetch.byte o
        let typ ← Fetch.byte (o + 1)
        if len = 0 then pure p
        else do
          let p ← fetchOne o typ p
          fetchConfig total n (o + len) p
      else pure p

section Loop

variable {cfg : Nat → Nat} {total : Nat}

/-- The offsets that the body reads. -/
def readsAt (cfg : Nat → Nat) (o : Nat) (p : Parsed) : List Nat :=
  if Interface cfg o then
    [o + 2, o + 5] ++ if cfg (o + 5) = 3 then
      (if cfg (o + 7) = 1 then [o + 7] else [o + 7, o + 7]) else []
  else if cfg (o + 1) = 5 ∧ (p.isKbd ∨ p.isMouse) then
    [o + 2, o + 3] ++ if InterruptIn cfg o ∧ p.epDci = 0 then [o + 4] else []
  else []

/-- The body parses, and reads at these offsets. -/
theorem fetchOne_run (o : Nat) (p : Parsed) :
    (fetchOne o (cfg (o + 1)) p).run cfg = (parseOne cfg o p, readsAt cfg o p) := by
  unfold fetchOne parseOne readsAt
  by_cases hface : Interface cfg o
  · have h4 : cfg (o + 1) = 4 := hface
    rw [if_pos h4, if_pos h4, if_pos hface]
    by_cases hclass : cfg (o + 5) = 3
    · by_cases hkbd : cfg (o + 7) = 1
      · simp [hclass, hkbd]
      · by_cases hmouse : cfg (o + 7) = 2
        · simp [hclass, hmouse]
        · simp [hclass, hkbd, hmouse]
    · simp [hclass]
  · have h4 : ¬ cfg (o + 1) = 4 := hface
    rw [if_neg h4, if_neg h4, if_neg hface]
    by_cases hep : cfg (o + 1) = 5 ∧ (p.isKbd ∨ p.isMouse)
    · rw [if_pos hep, if_pos hep, if_pos hep]
      by_cases hin : cfg (o + 2) &&& 0x80 ≠ 0 ∧ cfg (o + 3) &&& 0x3 = 3
          ∧ p.epDci = 0
      · obtain ⟨hdir, hattr, hnone⟩ := hin
        have hsel : InterruptIn cfg o := ⟨hep.1, hdir, hattr⟩
        simp only [hdir, hattr, hnone, hsel, Fetch.run_bind, Fetch.run_byte,
          Fetch.run_pure, ne_eq, not_false_eq_true, and_self, if_true]
        rfl
      · have hnot : ¬(InterruptIn cfg o ∧ p.epDci = 0) := by
          rintro ⟨⟨-, hdir, hattr⟩, hnone⟩
          exact hin ⟨hdir, hattr, hnone⟩
        simp [hin, hnot]
    · rw [if_neg hep, if_neg hep, if_neg hep]
      rfl

/-- The offsets that the loop reads. -/
def readsFrom (cfg : Nat → Nat) (total : Nat) : Nat → Nat → Parsed → List Nat
  | 0, _, _ => []
  | n + 1, o, p =>
      if o + 2 ≤ total then
        [o, o + 1] ++ if cfg o = 0 then []
          else readsAt cfg o p
            ++ readsFrom cfg total n (o + cfg o) (parseOne cfg o p)
      else []

theorem fetchConfig_run (n o : Nat) (p : Parsed) :
    (fetchConfig total n o p).run cfg
      = (parseConfig cfg total n o p, readsFrom cfg total n o p) := by
  induction n generalizing o p with
  | zero => rfl
  | succ n ih =>
      unfold fetchConfig parseConfig readsFrom
      by_cases hin : o + 2 ≤ total
      · by_cases hlen : cfg o = 0
        · simp [hin, hlen]
        · simp [hin, hlen, fetchOne_run, ih]
      · simp [hin]

/-- A turn for each byte that is left is enough. -/
theorem fetchConfig_more (n k o : Nat) (p : Parsed)
    (h : total < o + n + 2) :
    (fetchConfig total (n + k) o p).run cfg
      = (fetchConfig total n o p).run cfg := by
  induction n generalizing o p with
  | zero =>
      have hout : ¬ o + 2 ≤ total := by omega
      cases k with
      | zero => rfl
      | succ k =>
          unfold fetchConfig
          rw [if_neg hout]
  | succ n ih =>
      have hturns : n + 1 + k = n + k + 1 := by omega
      rw [hturns]
      unfold fetchConfig
      by_cases hin : o + 2 ≤ total
      · by_cases hlen : cfg o = 0
        · simp [hin, hlen]
        · have hnext := ih (o + cfg o) (parseOne cfg o p) (by omega)
          simp [hin, hlen, fetchOne_run, hnext]
      · simp [hin]

end Loop

-- ================================================================ the condition

/-- The fields that the loop looks at in the descriptor at `o`, behind
those at the offsets `os`, are inside: the number and class of an
interface and, if it is a HID interface, its protocol; behind a boot
interface the address and attributes of an endpoint and, if it is the
first interrupt-IN endpoint, its packet size. -/
def FieldsFit (cfg : Nat → Nat) (total : Nat) (os : List Nat) (o : Nat) :
    Prop :=
  (Interface cfg o → o + 5 < total ∧ (cfg (o + 5) = 3 → o + 7 < total))
    ∧ (cfg (o + 1) = 5 → (∃ b ∈ os, Boot cfg b) →
      o + 3 < total
        ∧ (InterruptIn cfg o → firstIn cfg os = none → o + 4 < total))

section Bounds

variable {cfg : Nat → Nat} {total : Nat} {p : Parsed}

theorem readsAt_iff (hkbd : p.isKbd = false) (hmouse : p.isMouse = false)
    (hdci : p.epDci = 0) (os : List Nat) (o : Nat) :
    (∀ a ∈ readsAt cfg o (found cfg p os), a < total)
      ↔ FieldsFit cfg total os o := by
  have hboot := found_boot cfg hkbd hmouse os
  have hnone := (found_dci_ne cfg hkbd hmouse hdci os).not
  rw [not_not, not_not] at hnone
  unfold readsAt FieldsFit
  by_cases hface : Interface cfg o
  · have h5 : ¬ cfg (o + 1) = 5 := by
      have h4 : cfg (o + 1) = 4 := hface
      omega
    rw [if_pos hface]
    by_cases hclass : cfg (o + 5) = 3
    · by_cases hproto : cfg (o + 7) = 1
      · simp [hface, h5, hclass, hproto]
        omega
      · simp [hface, h5, hclass, hproto]
        omega
    · simp [hface, h5, hclass]
      omega
  · rw [if_neg hface]
    by_cases hep : cfg (o + 1) = 5 ∧ ∃ b ∈ os, Boot cfg b
    · rw [if_pos (by rw [hboot]; exact hep)]
      by_cases hin : InterruptIn cfg o ∧ firstIn cfg os = none
      · rw [if_pos (by rw [hnone]; exact hin)]
        constructor
        · intro hall
          refine ⟨fun h => absurd h hface, fun _ _ => ⟨?_, fun _ _ => ?_⟩⟩
          · exact hall (o + 3) (by simp)
          · exact hall (o + 4) (by simp)
        · rintro ⟨-, hfit⟩ a ha
          have hlt := (hfit hep.1 hep.2).2 hin.1 hin.2
          simp at ha
          omega
      · rw [if_neg (by rw [hnone]; exact hin)]
        constructor
        · intro hall
          refine ⟨fun h => absurd h hface, fun _ _ => ⟨?_, fun h h' => ?_⟩⟩
          · exact hall (o + 3) (by simp)
          · exact absurd ⟨h, h'⟩ hin
        · rintro ⟨-, hfit⟩ a ha
          obtain ⟨hlt, -⟩ := hfit hep.1 hep.2
          simp at ha
          omega
    · rw [if_neg (by rw [hboot]; exact hep)]
      constructor
      · intro _
        exact ⟨fun h => absurd h hface, fun h h' => absurd ⟨h, h'⟩ hep⟩
      · intro _ a ha
        exact absurd ha List.not_mem_nil

/-- The reads of the loop, descriptor by descriptor. -/
theorem readsFrom_iff (n o : Nat) (p : Parsed) :
    (∀ a ∈ readsFrom cfg total n o p, a < total)
      ↔ ∀ pre x post, visitedFrom cfg total n o = pre ++ x :: post →
          ∀ a ∈ readsAt cfg x (found cfg p pre), a < total := by
  induction n generalizing o p with
  | zero =>
      constructor
      · intro _ pre x post h
        exact absurd h (by simp [visitedFrom])
      · intro _ a ha
        exact absurd ha List.not_mem_nil
  | succ n ih =>
      unfold readsFrom visitedFrom
      by_cases hin : o + 2 ≤ total
      · rw [if_pos hin, if_pos hin]
        by_cases hlen : cfg o = 0
        · rw [if_pos hlen, if_pos hlen]
          constructor
          · intro _ pre x post h
            exact absurd h (by simp)
          · intro _ a ha
            simp at ha
            omega
        · rw [if_neg hlen, if_neg hlen]
          have hrest := ih (o + cfg o) (parseOne cfg o p)
          constructor
          · intro hall pre x post h
            cases pre with
            | nil =>
                obtain ⟨rfl, -⟩ := List.cons.inj h
                intro a ha
                apply hall a
                exact List.mem_append_right _ (List.mem_append_left _ ha)
            | cons y pre =>
                obtain ⟨rfl, htail⟩ := List.cons.inj h
                apply hrest.mp ?_ pre x post htail
                intro a ha
                apply hall a
                exact List.mem_append_right _ (List.mem_append_right _ ha)
          · intro hall a ha
            rcases List.mem_append.mp ha with ha | ha
            · simp at ha
              omega
            rcases List.mem_append.mp ha with ha | ha
            · exact hall [] o _ rfl a ha
            · refine hrest.mpr (fun pre x post h => ?_) a ha
              exact hall (o :: pre) x post (congrArg (o :: ·) h)
      · rw [if_neg hin, if_neg hin]
        constructor
        · intro _ pre x post h
          exact absurd h (by simp)
        · intro _ a ha
          exact absurd ha List.not_mem_nil

end Bounds

-- =================================================================== the result

/-- The total that the loop goes by. -/
def clamped (reported : Nat) : Nat := min reported 512

/-- The loop with as many turns as the total has bytes: what it found, and
the offsets it read. -/
def walked (cfg : Nat → Nat) (total epLen : Nat) : Parsed × List Nat :=
  (fetchConfig total total 0 (noneFound epLen)).run cfg

/-- Whatever the control buffer and the memory behind it hold, and whatever
total the device reports: further turns change nothing, the loop is that
of the driver, and it reads inside the clamped total exactly when the
fields it looks at lie inside. -/
theorem walk_inBounds_iff (cfg : Nat → Nat) (reported epLen : Nat) :
    (∀ k, (fetchConfig (clamped reported) (clamped reported + k) 0
        (noneFound epLen)).run cfg = walked cfg (clamped reported) epLen)
      ∧ (walked cfg (clamped reported) epLen).1
        = parseConfig cfg (clamped reported) (clamped reported) 0
          (noneFound epLen)
      ∧ ((∀ a ∈ (walked cfg (clamped reported) epLen).2,
          a < clamped reported)
        ↔ ∀ pre o post, visited cfg (clamped reported) = pre ++ o :: post →
            FieldsFit cfg (clamped reported) pre o) := by
  generalize clamped reported = total
  have hrun : walked cfg total epLen
      = (parseConfig cfg total total 0 (noneFound epLen),
        readsFrom cfg total total 0 (noneFound epLen)) := fetchConfig_run ..
  refine ⟨fun k => fetchConfig_more total k 0 _ (by omega), ?_, ?_⟩
  · rw [hrun]
  · rw [hrun, readsFrom_iff]
    unfold visited
    simp only [readsAt_iff (p := noneFound epLen) rfl rfl rfl]

/-- A configuration descriptor of 11 bytes, the last two the start of an
interface descriptor. -/
def cutDescriptor : List UInt8 := [9, 2, 11, 0, 1, 1, 0, 0x80, 50, 9, 4]

/-- The walk reads the bytes 11 and 14 of it. -/
theorem walk_outOfBounds :
    11 ∈ (walked (fun o => (cutDescriptor.getD o 0).toNat) (clamped 11) 0).2
      ∧ 14 ∈ (walked (fun o => (cutDescriptor.getD o 0).toNat)
        (clamped 11) 0).2 := by
  decide

end Thuos.Usb
