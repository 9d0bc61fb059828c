/-
C strings as values: the bytes before the terminator. The terminator
itself is not stored, so the invariant of the type is that no stored
byte is zero, and two C strings are equal when a byte-by-byte comparison
cannot tell them apart.
-/
import Mathlib

/-- The contents of a NUL-terminated string. -/
structure CStr where
  chars : List UInt8
  noNul : 0 ∉ chars
  deriving DecidableEq, Repr

namespace CStr

/-- `""`. -/
def empty : CStr := ⟨[], by simp⟩

/-- A string literal of ASCII characters. -/
def ofString (s : String) : CStr :=
  ⟨(s.toList.map fun c => UInt8.ofNat c.toNat).filter (· ≠ 0), by simp⟩

def length (s : CStr) : Nat := s.chars.length

/-- The string cut after `n` bytes. -/
def take (s : CStr) (n : Nat) : CStr :=
  ⟨s.chars.take n, fun h => s.noNul (List.mem_of_mem_take h)⟩

theorem ext_chars {s t : CStr} (h : s.chars = t.chars) : s = t := by
  cases s with
  | mk sc hs =>
      cases t with
      | mk tc ht =>
          cases h
          rfl

/-- Cutting a string that is short enough keeps it. -/
theorem take_of_length_le {s : CStr} {n : Nat} (h : s.length ≤ n) :
    s.take n = s :=
  ext_chars (List.take_of_length_le h)

end CStr
