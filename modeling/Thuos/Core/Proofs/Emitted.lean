/-
What has been emitted: the characters given to `raw_putc`, as they can be
told apart again.

The consoles forget what was scrolled off them, but the serial line keeps
everything. A newline follows a carriage return there, so that a text can
be read off the line (`serial_inj`); and what is emitted whatever the sinks
are (`Emits`) is therefore one text (`Emits.unique`).
-/
import Thuos.Core.Kprintf
import Thuos.Lib.Machine

namespace Thuos.Core

open Gui Machine Video

-- =========================================================== the serial line

/-- What a character is on the line: a newline follows a carriage
return. -/
theorem serial_cons (c : UInt8) (text : List UInt8) :
    (c :: text).flatMap serialWriteChar
      = (if c = 10 then [13] else []) ++ c :: text.flatMap serialWriteChar := by
  rw [List.flatMap_cons]
  unfold serialWriteChar
  split
  · next hc =>
      rw [hc]
      rfl
  · rfl

/-- So no text begins with a newline there. -/
theorem serial_head (text rest : List UInt8) :
    text.flatMap serialWriteChar ≠ 10 :: rest := by
  intro heq
  cases text with
  | nil => cases heq
  | cons c text =>
      rw [serial_cons] at heq
      split at heq
      · cases heq
      · next hc => exact hc (List.cons.inj heq).1

/-- A text can be read off the serial line. -/
theorem serial_inj {xs ys : List UInt8}
    (h : xs.flatMap serialWriteChar = ys.flatMap serialWriteChar) :
    xs = ys := by
  induction xs generalizing ys with
  | nil =>
      cases ys with
      | nil => rfl
      | cons y ys =>
          rw [serial_cons] at h
          simp at h
  | cons x xs ih =>
      cases ys with
      | nil =>
          rw [serial_cons] at h
          simp at h
      | cons y ys =>
          rw [serial_cons, serial_cons] at h
          split at h
          · next hx =>
              rw [hx] at h
              split at h
              · next hy =>
                  obtain ⟨-, htail⟩ := List.cons.inj (List.append_cancel_left h)
                  rw [hx, hy, ih htail]
              · exact absurd (List.cons.inj h).2.symm (serial_head ys _)
          · split at h
            · next hy =>
                rw [hy] at h
                exact absurd (List.cons.inj h).2 (serial_head xs _)
            · obtain ⟨hxy, htail⟩ := List.cons.inj h
              rw [hxy, ih htail]

/-- The mirror, once on, stays on, and sends everything that is emitted. -/
theorem serial_rawPutcs (glyph : Glyphs) {s : Sinks}
    (hmirror : s.serialMirror = true) (text : List UInt8) :
    (exec (rawPutc glyph) s text).serialMirror = true
      ∧ (exec (rawPutc glyph) s text).serial
        = s.serial ++ text.flatMap serialWriteChar := by
  induction text generalizing s with
  | nil =>
      rw [List.flatMap_nil, List.append_nil]
      exact ⟨hmirror, rfl⟩
  | cons c text ih =>
      have hstep : (rawPutc glyph s c).serialMirror = true
          ∧ (rawPutc glyph s c).serial
            = s.serial ++ serialWriteChar c := by
        rw [rawPutc_eq]
        exact ⟨hmirror, if_pos hmirror⟩
      obtain ⟨hon, hsent⟩ := ih hstep.1
      rw [hstep.2, List.append_assoc] at hsent
      exact ⟨hon, hsent⟩

-- ================================================================ the emitting

/-- `kputc` gives each character of a text to `raw_putc`. -/
theorem kputc_sinks (glyph : Glyphs) (k : Kout) (text : List UInt8) :
    (exec (kputc glyph) k text).sinks = exec (rawPutc glyph) k.sinks text := by
  induction text generalizing k with
  | nil => rfl
  | cons c text ih => exact ih (kputc glyph k c)

/-- `print` gives the characters `text` to `raw_putc`, in order, wherever
they go: to the graphical console or the text console, and to the serial
line or not. -/
def Emits (glyph : Glyphs) (print : Kout → Kout) (k : Kout)
    (text : List UInt8) : Prop :=
  ∀ sinks, (print { k with sinks := sinks }).sinks
    = exec (rawPutc glyph) sinks text

/-- What is emitted is one text: the serial line tells. -/
theorem Emits.unique {glyph : Glyphs} {print : Kout → Kout} {k : Kout}
    {text text' : List UInt8} (h : Emits glyph print k text)
    (h' : Emits glyph print k text') : text = text' := by
  have hmirror : Sinks.boot.serialMirror = true := rfl
  have heq : (exec (rawPutc glyph) Sinks.boot text).serial
      = (exec (rawPutc glyph) Sinks.boot text').serial := by
    rw [← h, ← h']
  rw [(serial_rawPutcs glyph hmirror text).2,
    (serial_rawPutcs glyph hmirror text').2] at heq
  exact serial_inj (List.append_cancel_left heq)

/-- The dump emits the characters of its window. -/
theorem emits_klogDump (glyph : Glyphs) (k : Kout) :
    Emits glyph (klogDump glyph) k (klogText k) := fun _ => rfl

/-- So that is what the serial line gets of it. -/
theorem klogDump_serial (glyph : Glyphs) {k : Kout}
    (hmirror : k.sinks.serialMirror = true) :
    (klogDump glyph k).sinks.serial
      = k.sinks.serial ++ (klogText k).flatMap serialWriteChar :=
  (serial_rawPutcs glyph hmirror (klogText k)).2

end Thuos.Core
