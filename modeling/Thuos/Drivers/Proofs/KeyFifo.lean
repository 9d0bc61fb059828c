/-
The keyboard buffer is a bounded queue.

`KeyLog` keeps beside the driver the characters that went into the buffer
and the characters that the readers were given. What has gone in and not
come out is pending. The ring holds the pending characters
(`Linked.holds`), so a push finds it full at 127 of them, and a reader
finds the oldest. Each step keeps that (`Linked.step`), whichever of the
two producers or two readers takes it.
-/
import Thuos.Drivers.Keyboard
import Thuos.Lib.Machine
import Thuos.Lib.RingBuffer

namespace Thuos.Drivers

open Machine RingBuffer

-- ================================================================ the pushes

/-- The character that `keyboard_callback` pushes, if any. -/
def callbackChar (s : Keyboard) (scancode : UInt8) : Option UInt8 :=
  if scancode = 0x2A ∨ scancode = 0x36 then none
  else if scancode = 0xAA ∨ scancode = 0xB6 then none
  else if scancode &&& 0x80 ≠ 0 then none
  else if scancode ≥ 128 then none
  else
    let c := if s.shiftDown then scancodeMapShift scancode
      else scancodeMap scancode
    if c ≠ 0 then some c else none

/-- The character that a step pushes, if any. -/
def pushedBy (s : Keyboard) : KeyOp → Option UInt8
  | .callback scancode => callbackChar s scancode
  | .inject c => if c ≠ 0 then some c else none
  | .getchar => none
  | .trygetchar => none

/-- A driver with the same buffer. -/
structure SameBuffer (s t : Keyboard) : Prop where
  buffer : t.buffer = s.buffer
  head : t.head = s.head
  tail : t.tail = s.tail

theorem SameBuffer.refl (s : Keyboard) : SameBuffer s s := ⟨rfl, rfl, rfl⟩

/-- An interrupt pushes its character, or leaves the buffer alone. -/
theorem callback_cases (s : Keyboard) (scancode : UInt8) :
    (∃ c, callbackChar s scancode = some c ∧ c ≠ 0
        ∧ keyboardCallback s scancode = bufferPush s c)
      ∨ (callbackChar s scancode = none
        ∧ SameBuffer s (keyboardCallback s scancode)) := by
  unfold callbackChar keyboardCallback
  dsimp only
  generalize (if s.shiftDown then scancodeMapShift scancode
    else scancodeMap scancode) = c
  split
  · exact Or.inr ⟨rfl, rfl, rfl, rfl⟩
  split
  · exact Or.inr ⟨rfl, rfl, rfl, rfl⟩
  split
  · exact Or.inr ⟨rfl, SameBuffer.refl s⟩
  split
  · exact Or.inr ⟨rfl, SameBuffer.refl s⟩
  by_cases hc : c ≠ 0
  · rw [if_pos hc, if_pos hc]
    exact Or.inl ⟨c, rfl, hc, rfl⟩
  · rw [if_neg hc, if_neg hc]
    exact Or.inr ⟨rfl, SameBuffer.refl s⟩

/-- A step that pushes does nothing else. -/
theorem keyStep_push {s : Keyboard} {op : KeyOp} {c : UInt8}
    (h : pushedBy s op = some c) :
    c ≠ 0 ∧ keyStep s op = (bufferPush s c, none) := by
  cases op with
  | callback scancode =>
      have h : callbackChar s scancode = some c := h
      rcases callback_cases s scancode with ⟨d, hd, hne, hpush⟩ | ⟨hno, -⟩
      · obtain rfl : d = c := Option.some.inj (hd.symm.trans h)
        exact ⟨hne, congrArg (·, none) hpush⟩
      · rw [h] at hno
        cases hno
  | inject d =>
      have h : (if d ≠ 0 then some d else none) = some c := h
      by_cases hd : d ≠ 0
      · rw [if_pos hd] at h
        obtain rfl := Option.some.inj h
        have hinject : keyboardInject s d = bufferPush s d := if_pos hd
        exact ⟨hd, congrArg (·, none) hinject⟩
      · rw [if_neg hd] at h
        cases h
  | getchar => cases h
  | trygetchar => cases h

-- =============================================================== the history

/-- The driver, the characters that its buffer took and the characters
that were read. -/
structure KeyLog where
  kbd : Keyboard
  accepted : List UInt8
  reads : List UInt8

namespace KeyLog

/-- The driver after `keyboard_init`. -/
def start (s : Keyboard) : KeyLog := ⟨keyboardInit s, [], []⟩

/-- A push is accepted where `buffer_push` stores it; a 0 from
`keyboard_trygetchar` is no character. -/
def step (l : KeyLog) (op : KeyOp) : KeyLog where
  kbd := (keyStep l.kbd op).1
  accepted := l.accepted
    ++ if l.kbd.next ≠ l.kbd.tail then (pushedBy l.kbd op).toList else []
  reads := l.reads ++ ((keyStep l.kbd op).2.filter (· ≠ 0)).toList

/-- The characters accepted and not yet read. -/
def pending (l : KeyLog) : List UInt8 := l.accepted.drop l.reads.length

end KeyLog

/-- The buffer holds what is pending, and what was read came first. -/
structure Linked (l : KeyLog) : Prop where
  order : l.accepted = l.reads ++ l.pending
  holds : Holds BUF_SIZE l.kbd.buffer l.kbd.head l.kbd.tail l.pending
  nonzero : ∀ c ∈ l.pending, c ≠ 0

section Steps

variable {l l' : KeyLog}

theorem linked_start (s : Keyboard) : Linked (KeyLog.start s) where
  order := rfl
  holds := holds_nil (show 0 < BUF_SIZE by decide)
  nonzero _ h := absurd h List.not_mem_nil

/-- A state from its pending characters. -/
theorem linked_of {q : List UInt8} (horder : l.accepted = l.reads ++ q)
    (hholds : Holds BUF_SIZE l.kbd.buffer l.kbd.head l.kbd.tail q)
    (hne : ∀ c ∈ q, c ≠ 0) : Linked l := by
  have hq : l.pending = q := by
    unfold KeyLog.pending
    rw [horder, List.drop_left]
  rw [← hq] at horder hholds hne
  exact ⟨horder, hholds, hne⟩

/-- There is room for a push exactly below 127 characters. -/
theorem Linked.room_iff (h : Linked l) :
    l.kbd.next ≠ l.kbd.tail ↔ l.pending.length ≠ 127 := by
  have hfull : l.kbd.next = l.kbd.tail ↔ l.pending.length + 1 = 128 :=
    h.holds.full_iff
  rw [Ne, hfull]
  omega

theorem Linked.length_le (h : Linked l) : l.pending.length ≤ 127 :=
  Nat.le_of_lt_succ h.holds.room

/-- A step that pushes, where there is room. -/
theorem Linked.accept (h : Linked l) {op : KeyOp} {c : UInt8}
    (hpush : pushedBy l.kbd op = some c) (hroom : l.pending.length ≠ 127) :
    (l.step op).accepted = l.accepted ++ [c] ∧ Linked (l.step op) := by
  obtain ⟨hne, hstep⟩ := keyStep_push hpush
  have hle := h.length_le
  have hspace := h.room_iff.mpr hroom
  have haccept : (l.step op).accepted = l.accepted ++ [c] := by
    unfold KeyLog.step
    rw [if_pos hspace, hpush]
    rfl
  have hreads : (l.step op).reads = l.reads := by
    unfold KeyLog.step
    rw [hstep]
    exact List.append_nil _
  have hkbd : (l.step op).kbd = bufferPush l.kbd c := congrArg Prod.fst hstep
  refine ⟨haccept, linked_of (q := l.pending ++ [c]) ?_ ?_ ?_⟩
  · rw [haccept, hreads, ← List.append_assoc, ← h.order]
  · rw [hkbd]
    unfold bufferPush
    rw [if_pos hspace]
    apply h.holds.push
    show l.pending.length + 1 < 128
    omega
  · intro d hd
    rcases List.mem_append.mp hd with hd | hd
    · exact h.nonzero d hd
    · rw [List.mem_singleton.mp hd]
      exact hne

/-- A step that pushes into the full buffer changes nothing. -/
theorem Linked.drop (h : Linked l) {op : KeyOp} {c : UInt8}
    (hpush : pushedBy l.kbd op = some c) (hfull : l.pending.length = 127) :
    l.step op = l := by
  obtain ⟨-, hstep⟩ := keyStep_push hpush
  have hspace : ¬ l.kbd.next ≠ l.kbd.tail := mt h.room_iff.mp (by omega)
  have hsame : bufferPush l.kbd c = l.kbd := by
    unfold bufferPush
    rw [if_neg hspace]
  unfold KeyLog.step
  rw [hstep, hsame, if_neg hspace, List.append_nil]
  exact congrArg (KeyLog.mk _ _) (List.append_nil _)

theorem Linked.empty_iff (h : Linked l) :
    l.kbd.head = l.kbd.tail ↔ l.pending = [] :=
  h.holds.empty_iff

/-- What a reader finds. -/
theorem Linked.front (h : Linked l) {c : UInt8} {q : List UInt8}
    (hq : l.pending = c :: q) :
    l.kbd.head ≠ l.kbd.tail ∧ l.kbd.buffer l.kbd.tail = c ∧ c ≠ 0 := by
  refine ⟨?_, ?_, ?_⟩
  · intro hempty
    rw [h.empty_iff, hq] at hempty
    cases hempty
  · have hholds := h.holds
    rw [hq] at hholds
    exact hholds.front
  · apply h.nonzero
    rw [hq]
    exact List.mem_cons_self

/-- A read takes the oldest pending character, or nothing. -/
theorem Linked.read (h : Linked l) {op : KeyOp}
    (hop : op = .getchar ∨ op = .trygetchar) : Linked (l.step op) := by
  have haccept : (l.step op).accepted = l.accepted := by
    have hnone : pushedBy l.kbd op = none := by
      rcases hop with rfl | rfl
      · rfl
      · rfl
    unfold KeyLog.step
    rw [hnone, Option.toList_none, ite_self, List.append_nil]
  cases hq : l.pending with
  | nil =>
      have hempty := h.empty_iff.mpr hq
      have hstay : l.step op = l := by
        have hread : (keyStep l.kbd op).1 = l.kbd
            ∧ (keyStep l.kbd op).2.filter (· ≠ 0) = none := by
          rcases hop with rfl | rfl
          · simp [keyStep, keyboardGetchar, hempty]
          · simp [keyStep, keyboardTrygetchar, hempty]
        unfold KeyLog.step at haccept ⊢
        dsimp only at haccept
        rw [haccept, hread.1, hread.2]
        exact congrArg (KeyLog.mk _ _) (List.append_nil _)
      rw [hstay]
      exact h
  | cons c q =>
      obtain ⟨hsome, hfront, hne⟩ := h.front hq
      have hread : keyStep l.kbd op
          = ({ l.kbd with tail := (l.kbd.tail + 1) % BUF_SIZE }, some c) := by
        rcases hop with rfl | rfl
        · simp [keyStep, keyboardGetchar, hsome, hfront]
        · simp [keyStep, keyboardTrygetchar, hsome, hfront]
      have hreads : (l.step op).reads = l.reads ++ [c] := by
        unfold KeyLog.step
        rw [hread]
        simp [hne]
      have hholds := h.holds
      rw [hq] at hholds
      refine linked_of (q := q) ?_ ?_ ?_
      · rw [haccept, hreads, List.append_assoc, List.singleton_append, ← hq]
        exact h.order
      · have hpop := hholds.pop
        unfold KeyLog.step
        rw [hread]
        exact hpop
      · intro d hd
        apply h.nonzero
        rw [hq]
        exact List.mem_cons_of_mem c hd

/-- A step that neither pushes nor reads. -/
theorem Linked.idle (h : Linked l) (op : KeyOp)
    (hpush : pushedBy l.kbd op = none)
    (hkbd : SameBuffer l.kbd (keyStep l.kbd op).1)
    (hout : (keyStep l.kbd op).2 = none) : Linked (l.step op) := by
  refine linked_of (q := l.pending) ?_ ?_ h.nonzero
  · unfold KeyLog.step
    rw [hpush, hout, Option.toList_none, ite_self, List.append_nil, h.order]
    show _ = (l.reads ++ []) ++ _
    rw [List.append_nil, ← h.order]
  · show Holds BUF_SIZE (keyStep l.kbd op).1.buffer
      (keyStep l.kbd op).1.head (keyStep l.kbd op).1.tail _
    rw [hkbd.buffer, hkbd.head, hkbd.tail]
    exact h.holds

/-- A step, whether or not it pushes. -/
theorem Linked.push (h : Linked l) (op : KeyOp) {c : UInt8}
    (hpush : pushedBy l.kbd op = some c) : Linked (l.step op) := by
  by_cases hfull : l.pending.length = 127
  · rw [h.drop hpush hfull]
    exact h
  · exact (h.accept hpush hfull).2

/-- The step lemma. -/
theorem Linked.step (h : Linked l) (op : KeyOp) : Linked (l.step op) := by
  cases op with
  | callback scancode =>
      rcases callback_cases l.kbd scancode with ⟨c, hc, -, -⟩ | ⟨hno, hsame⟩
      · exact h.push (.callback scancode) hc
      · exact h.idle (.callback scancode) hno hsame rfl
  | inject c =>
      by_cases hc : c ≠ 0
      · have hpush : pushedBy l.kbd (.inject c) = some c := if_pos hc
        exact h.push (.inject c) hpush
      · have hinject : keyboardInject l.kbd c = l.kbd := if_neg hc
        refine h.idle (.inject c) (if_neg hc) ?_ rfl
        show SameBuffer l.kbd (keyboardInject l.kbd c)
        rw [hinject]
        exact SameBuffer.refl _
  | getchar => exact h.read (Or.inl rfl)
  | trygetchar => exact h.read (Or.inr rfl)

end Steps

-- ================================================================ the result

/-- The buffer is a queue of at most 127 characters, and both readers give
its first one. -/
structure BoundedFifo (l : KeyLog) : Prop where
  order : l.accepted = l.reads ++ l.pending
  bound : l.pending.length ≤ 127
  accepts : ∀ op c, pushedBy l.kbd op = some c → l.pending.length ≠ 127 →
    (l.step op).accepted = l.accepted ++ [c]
  drops : ∀ op c, pushedBy l.kbd op = some c → l.pending.length = 127 →
    l.step op = l
  haskey : keyboardHaskey l.kbd = if l.pending ≠ [] then 1 else 0
  getchar : (keyboardGetchar l.kbd).map Prod.fst = l.pending.head?
  trygetchar : (keyboardTrygetchar l.kbd).1 = l.pending.head?.getD 0
  nonzero : l.pending ≠ [] → (keyboardTrygetchar l.kbd).1 ≠ 0

/-- What the readers return. -/
theorem Linked.returns {l : KeyLog} (h : Linked l) :
    (keyboardGetchar l.kbd).map Prod.fst = l.pending.head?
      ∧ (keyboardTrygetchar l.kbd).1 = l.pending.head?.getD 0 := by
  cases hq : l.pending with
  | nil =>
      have hempty := h.empty_iff.mpr hq
      simp [keyboardGetchar, keyboardTrygetchar, hempty]
  | cons c q =>
      obtain ⟨hsome, hfront, -⟩ := h.front hq
      simp [keyboardGetchar, keyboardTrygetchar, hsome, hfront]

theorem Linked.fifo {l : KeyLog} (h : Linked l) : BoundedFifo l where
  order := h.order
  bound := h.length_le
  accepts _ _ hpush hroom := (h.accept hpush hroom).1
  drops _ _ hpush hfull := h.drop hpush hfull
  haskey := by
    unfold keyboardHaskey
    simp only [Ne, h.empty_iff]
  getchar := h.returns.1
  trygetchar := h.returns.2
  nonzero hne := by
    rw [h.returns.2]
    cases hq : l.pending with
    | nil => exact absurd hq hne
    | cons c q => exact (h.front hq).2.2

/-- After every sequence of interrupts, injections and reads from
`keyboard_init` on. -/
theorem keyboard_fifo (s : Keyboard) (ops : List KeyOp) :
    BoundedFifo (exec KeyLog.step (KeyLog.start s) ops) :=
  (exec_inv' Linked (fun _ op h => h.step op) (linked_start s)).fifo

end Thuos.Drivers
