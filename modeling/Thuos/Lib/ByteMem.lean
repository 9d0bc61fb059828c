/-
A byte-addressed memory with little-endian words.

Memory is a total function from addresses to bytes, so every access is
defined; what an access may touch is said by the frame lemmas. All of
them reduce to one fact about runs of bytes, `write_outside`: a write
changes nothing outside the range it names. Words are runs of four
bytes: `load32` reads what `store32` wrote (`load32_store32`), and a load
sees only the bytes under it (`load32_congr`).
-/
import Mathlib

namespace ByteMem

/-- A memory: one byte at every address. -/
abbrev Mem := Nat → UInt8

namespace Mem

-- ========================================================= runs of bytes

def set (m : Mem) (a : Nat) (b : UInt8) : Mem :=
  fun x => if x = a then b else m x

/-- The `n` bytes from `a` on. -/
def read (m : Mem) (a n : Nat) : List UInt8 :=
  (List.range n).map fun i => m (a + i)

/-- Write a run of bytes from `a` on. -/
def write (m : Mem) (a : Nat) : List UInt8 → Mem
  | [] => m
  | b :: bs => (m.set a b).write (a + 1) bs

@[simp] theorem set_self (m : Mem) (a : Nat) (b : UInt8) :
    m.set a b a = b := if_pos rfl

theorem set_ne (m : Mem) {a x : Nat} (b : UInt8) (h : x ≠ a) :
    m.set a b x = m x := if_neg h

@[simp] theorem length_read (m : Mem) (a n : Nat) :
    (m.read a n).length = n := by
  simp [read]

theorem getElem_read (m : Mem) (a n : Nat) {i : Nat}
    (h : i < (m.read a n).length) : (m.read a n)[i] = m (a + i) := by
  simp [read]

theorem read_congr {m m' : Mem} {a n : Nat}
    (h : ∀ x, a ≤ x → x < a + n → m x = m' x) : m.read a n = m'.read a n := by
  unfold read
  refine List.map_congr_left fun i hi => ?_
  have := List.mem_range.mp hi
  exact h (a + i) (by omega) (by omega)

/-- The frame of a write: bytes outside the written range are kept. -/
theorem write_outside {bs : List UInt8} {m : Mem} {a x : Nat}
    (h : x < a ∨ a + bs.length ≤ x) : m.write a bs x = m x := by
  induction bs generalizing m a with
  | nil => rfl
  | cons b bs ih =>
      rw [List.length_cons] at h
      show (m.set a b).write (a + 1) bs x = m x
      rw [ih (by omega)]
      exact set_ne m b (by omega)

/-- Each written byte is the one written there. -/
theorem write_inside {bs : List UInt8} {m : Mem} {a i : Nat}
    (h : i < bs.length) : m.write a bs (a + i) = bs[i] := by
  induction bs generalizing m a i with
  | nil => exact absurd h (Nat.not_lt_zero i)
  | cons b bs ih =>
      show (m.set a b).write (a + 1) bs (a + i) = (b :: bs)[i]
      cases i with
      | zero =>
          rw [write_outside (by omega)]
          exact set_self m a b
      | succ i =>
          rw [List.length_cons] at h
          have := ih (m := m.set a b) (a := a + 1) (i := i) (by omega)
          rw [show a + (i + 1) = a + 1 + i from by omega, this]
          rfl

/-- What was written is read back. -/
theorem read_write_self (m : Mem) (a : Nat) (bs : List UInt8) :
    (m.write a bs).read a bs.length = bs := by
  refine List.ext_getElem (length_read ..) fun i hi hi' => ?_
  rw [getElem_read]
  exact write_inside hi'

-- ================================================================= words

/-- The little-endian 32-bit word at `a`. -/
def load32 (m : Mem) (a : Nat) : Nat :=
  (m a).toNat + 2 ^ 8 * (m (a + 1)).toNat + 2 ^ 16 * (m (a + 2)).toNat
    + 2 ^ 24 * (m (a + 3)).toNat

/-- The little-endian 64-bit word at `a`. -/
def load64 (m : Mem) (a : Nat) : Nat :=
  m.load32 a + 2 ^ 32 * m.load32 (a + 4)

/-- The four bytes of a 32-bit word, low byte first. -/
def bytes32 (v : Nat) : List UInt8 :=
  [UInt8.ofNat v, UInt8.ofNat (v / 2 ^ 8), UInt8.ofNat (v / 2 ^ 16),
    UInt8.ofNat (v / 2 ^ 24)]

def store32 (m : Mem) (a v : Nat) : Mem := m.write a (bytes32 v)

def store64 (m : Mem) (a v : Nat) : Mem :=
  (m.store32 a v).store32 (a + 4) (v / 2 ^ 32)

theorem load32_lt (m : Mem) (a : Nat) : m.load32 a < 2 ^ 32 := by
  have h0 := (m a).toNat_lt
  have h1 := (m (a + 1)).toNat_lt
  have h2 := (m (a + 2)).toNat_lt
  have h3 := (m (a + 3)).toNat_lt
  unfold load32
  omega

/-- A load sees only the four bytes under it. -/
theorem load32_congr {m m' : Mem} {a : Nat}
    (h : ∀ x, a ≤ x → x < a + 4 → m x = m' x) : m.load32 a = m'.load32 a := by
  unfold load32
  rw [h a (by omega) (by omega), h (a + 1) (by omega) (by omega),
    h (a + 2) (by omega) (by omega), h (a + 3) (by omega) (by omega)]

theorem store32_outside (m : Mem) {a x : Nat} (v : Nat)
    (h : x < a ∨ a + 4 ≤ x) : m.store32 a v x = m x :=
  write_outside h

theorem load32_store32 (m : Mem) (a v : Nat) :
    (m.store32 a v).load32 a = v % 2 ^ 32 := by
  have hb : ∀ i (h : i < 4), m.store32 a v (a + i) = (bytes32 v)[i] :=
    fun i h => write_inside h
  have h0 : m.store32 a v a = UInt8.ofNat v := hb 0 (by omega)
  have h1 : m.store32 a v (a + 1) = UInt8.ofNat (v / 2 ^ 8) := hb 1 (by omega)
  have h2 : m.store32 a v (a + 2) = UInt8.ofNat (v / 2 ^ 16) :=
    hb 2 (by omega)
  have h3 : m.store32 a v (a + 3) = UInt8.ofNat (v / 2 ^ 24) :=
    hb 3 (by omega)
  unfold load32
  rw [h0, h1, h2, h3]
  simp only [UInt8.toNat_ofNat']
  omega

theorem load32_store32_of_disjoint (m : Mem) {a b : Nat} (v : Nat)
    (h : a + 4 ≤ b ∨ b + 4 ≤ a) : (m.store32 a v).load32 b = m.load32 b :=
  load32_congr fun x hx hx' => store32_outside m v (by omega)

-- ======================================================== arrays of words

/-- The loop `for (i = 0; i < n; i++) a[i] = f(i);` over an array of words
at `a`. -/
def storeWords (m : Mem) (a : Nat) (f : Nat → Nat) : Nat → Mem
  | 0 => m
  | n + 1 => (storeWords m a f n).store32 (a + 4 * n) (f n)

theorem storeWords_outside {m : Mem} {a x n : Nat} {f : Nat → Nat}
    (h : x < a ∨ a + 4 * n ≤ x) : m.storeWords a f n x = m x := by
  induction n with
  | zero => rfl
  | succ n ih =>
      rw [storeWords, store32_outside _ _ (by omega)]
      exact ih (by omega)

theorem load32_storeWords_of_disjoint {m : Mem} {a b n : Nat} {f : Nat → Nat}
    (h : b + 4 ≤ a ∨ a + 4 * n ≤ b) :
    (m.storeWords a f n).load32 b = m.load32 b :=
  load32_congr fun x hx hx' => storeWords_outside (by omega)

/-- Each word reads what the loop stored there. -/
theorem load32_storeWords {m : Mem} {a i n : Nat} {f : Nat → Nat}
    (h : i < n) : (m.storeWords a f n).load32 (a + 4 * i) = f i % 2 ^ 32 := by
  induction n with
  | zero => exact absurd h (Nat.not_lt_zero i)
  | succ n ih =>
      rw [storeWords]
      by_cases hi : i = n
      · rw [hi, load32_store32]
      · rw [load32_store32_of_disjoint _ _ (by omega)]
        exact ih (by omega)

end Mem

end ByteMem
