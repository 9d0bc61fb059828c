/-
What the string functions make of strings.

A string stands in memory with a terminator behind it (`TextAt`). The three
comparisons are the lexicographic order on unsigned bytes
(`strings_compare`): each goes on while the bytes agree, and the first
difference, with the terminator below every character, decides. The others
find the end or a character of a string, or write it somewhere else
(`strings_copy`).

Every loop is an induction on the string, or on the bytes that are left.
-/
import Thuos.Core.Strings
import Thuos.Lib.CStr

namespace Thuos.Core

open ByteMem Loop Word32

-- ========================================================= strings in memory

/-- The characters stand at `a`, with a terminator behind them. -/
def TextAt (m : Mem) : Nat → List UInt8 → Prop
  | a, [] => a < 2 ^ 32 ∧ m a = 0
  | a, c :: cs => m a = c ∧ c ≠ 0 ∧ TextAt m (a + 1) cs

section TextAt

variable {m : Mem} {a : Nat} {cs : List UInt8}

/-- A string and its terminator lie below the end of memory. -/
theorem TextAt.fits (h : TextAt m a cs) : a + cs.length < 2 ^ 32 := by
  induction cs generalizing a with
  | nil => exact h.1
  | cons c cs ih =>
      have hrest := ih h.2.2
      rw [List.length_cons]
      omega

/-- A string begins below the end of memory. -/
theorem TextAt.lt (h : TextAt m a cs) : a < 2 ^ 32 :=
  Nat.lt_of_le_of_lt (Nat.le_add_right a _) h.fits

/-- The character behind the first. -/
theorem TextAt.next {c : UInt8} (h : TextAt m a (c :: cs)) :
    add32 a 1 = a + 1 := add32_eq h.2.2.lt

/-- What is read of a string. -/
theorem TextAt.get (h : TextAt m a cs) {i : Nat} (hi : i ≤ cs.length) :
    m (a + i) = cs.getD i 0 := by
  induction cs generalizing a i with
  | nil =>
      have hzero : i = 0 := by simpa using hi
      rw [hzero]
      exact h.2
  | cons c cs ih =>
      cases i with
      | zero => exact h.1
      | succ i =>
          have hget := ih h.2.2 (Nat.le_of_succ_le_succ hi)
          rw [List.getD_cons_succ, ← hget]
          congr 1
          omega

/-- Strings are read, so what else is in memory does not matter. -/
theorem TextAt.congr {m' : Mem} (h : TextAt m a cs)
    (hm : ∀ x, a ≤ x → x ≤ a + cs.length → m' x = m x) : TextAt m' a cs := by
  induction cs generalizing a with
  | nil =>
      refine ⟨h.1, ?_⟩
      rw [hm a (Nat.le_refl a) (Nat.le_add_right a _)]
      exact h.2
  | cons c cs ih =>
      rw [List.length_cons] at hm
      refine ⟨?_, h.2.1, ih h.2.2 fun x hx hx' => hm x (by omega) (by omega)⟩
      rw [hm a (Nat.le_refl a) (by omega)]
      exact h.1

end TextAt

-- ============================================================= comparisons

section Compare

variable {m : Mem}

/-- The difference of two bytes tells which is the larger one. -/
theorem compare_byteDiff (x y : UInt8) :
    compare (byteDiff x y) 0 = compare x y := by
  unfold byteDiff
  rcases Nat.lt_trichotomy x.toNat y.toNat with hlt | heq | hgt
  · have hxy : x < y := UInt8.lt_iff_toNat_lt.mpr hlt
    rw [Std.compare_eq_lt.mpr hxy, Int.compare_eq_lt]
    omega
  · have hxy : x = y := UInt8.toNat_inj.mp heq
    rw [hxy, Int.sub_self, Std.compare_self, Std.compare_self]
  · have hxy : y < x := UInt8.lt_iff_toNat_lt.mpr hgt
    rw [Std.compare_eq_gt.mpr hxy, Int.compare_eq_gt]
    omega

/-- A first difference decides. -/
theorem compare_cons_ne {c d : UInt8} (h : c ≠ d) (cs ds : List UInt8) :
    compare (byteDiff c d) 0 = compare (c :: cs) (d :: ds) := by
  rw [compare_byteDiff, List.compare_cons_cons]
  cases hcd : compare c d with
  | lt => rfl
  | gt => rfl
  | eq => exact absurd (Std.compare_eq_iff_eq.mp hcd) h

/-- Texts that begin with the same byte compare as their rests do. -/
theorem compare_cons_self (c : UInt8) (cs ds : List UInt8) :
    compare (c :: cs) (c :: ds) = compare cs ds := by
  rw [List.compare_cons_cons, Std.compare_self]
  rfl

/-- A character is larger than the terminator. -/
theorem compare_end (c : UInt8) (hc : c ≠ 0) (cs : List UInt8) :
    compare (byteDiff c 0) 0 = compare (c :: cs) []
      ∧ compare (byteDiff 0 c) 0 = compare [] (c :: cs) := by
  have hpos : 0 < c := UInt8.pos_iff_ne_zero.mpr hc
  rw [compare_byteDiff, compare_byteDiff, List.compare_cons_nil,
    List.compare_nil_cons]
  exact ⟨Std.compare_eq_gt.mpr hpos, Std.compare_eq_lt.mpr hpos⟩

/-- `strcmp` returns in as many turns as the first string has bytes with its
terminator, and its sign is the order. -/
theorem strcmp_compare {cs : List UInt8} {a b turns : Nat} {ds : List UInt8}
    (ha : TextAt m a cs) (hb : TextAt m b ds) (hturns : cs.length < turns) :
    ∃ v, strcmp m turns a b = some v ∧ compare v 0 = compare cs ds := by
  induction cs generalizing a b ds turns with
  | nil =>
      obtain ⟨turns, rfl⟩ : ∃ n, turns = n + 1 := ⟨turns - 1, by omega⟩
      unfold strcmp
      rw [if_neg fun h => h.1 ha.2, ha.2]
      refine ⟨_, rfl, ?_⟩
      cases ds with
      | nil =>
          rw [hb.2]
          rfl
      | cons d ds =>
          rw [hb.1]
          exact (compare_end d hb.2.1 ds).2
  | cons c cs ih =>
      obtain ⟨turns, rfl⟩ : ∃ n, turns = n + 1 := ⟨turns - 1, by omega⟩
      rw [List.length_cons] at hturns
      obtain ⟨hc, hne, hrest⟩ := ha
      unfold strcmp
      cases ds with
      | nil =>
          rw [if_neg fun h => hne (hc.symm.trans (h.2.trans hb.2)), hc, hb.2]
          exact ⟨_, rfl, (compare_end c hne cs).1⟩
      | cons d ds =>
          obtain ⟨hd, hned, hrest'⟩ := hb
          rw [hc, hd]
          by_cases hcd : c = d
          · subst hcd
            obtain ⟨v, hv, hcompare⟩ :=
              @ih (a + 1) (b + 1) turns ds hrest hrest' (by omega)
            rw [if_pos ⟨hne, rfl⟩, add32_eq hrest.lt, add32_eq hrest'.lt]
            refine ⟨v, hv, ?_⟩
            rw [compare_cons_self]
            exact hcompare
          · rw [if_neg fun h => hcd h.2]
            exact ⟨_, rfl, compare_cons_ne hcd cs ds⟩

/-- From any byte on, `strncmp` compares what is left of both strings, up to
the count. -/
theorem strncmp_compare {n : Nat} {a b i : Nat} {cs ds : List UInt8}
    (ha : TextAt m (a + i) cs) (hb : TextAt m (b + i) ds) :
    compare (strncmpLoop m a b n i) 0 = compare (cs.take n) (ds.take n) := by
  induction n generalizing i cs ds with
  | zero => rfl
  | succ n ih =>
      unfold strncmpLoop
      rw [add32_eq ha.lt, add32_eq hb.lt]
      cases cs with
      | nil =>
          rw [if_pos (.inr ha.2), ha.2]
          cases ds with
          | nil =>
              rw [hb.2]
              rfl
          | cons d ds =>
              rw [hb.1]
              exact (compare_end d hb.2.1 _).2
      | cons c cs =>
          obtain ⟨hc, hne, hrest⟩ := ha
          rw [hc]
          cases ds with
          | nil =>
              rw [if_pos (.inl fun h => hne (h.trans hb.2)), hb.2]
              exact (compare_end c hne _).1
          | cons d ds =>
              obtain ⟨hd, hned, hrest'⟩ := hb
              rw [hd, List.take_succ_cons, List.take_succ_cons]
              by_cases hcd : c = d
              · subst hcd
                rw [if_neg (by simp [hne]), compare_cons_self]
                exact ih hrest hrest'
              · rw [if_pos (.inl hcd)]
                exact compare_cons_ne hcd _ _

/-- From any byte on, `memcmp` compares what is left of both ranges. -/
theorem memcmp_compare {n : Nat} {a b i : Nat} (ha : a + i + n ≤ 2 ^ 32)
    (hb : b + i + n ≤ 2 ^ 32) :
    compare (memcmpLoop m a b n i) 0
      = compare (m.read (a + i) n) (m.read (b + i) n) := by
  have hread : ∀ a n, m.read a (n + 1) = m a :: m.read (a + 1) n := by
    intro a n
    unfold Mem.read
    rw [List.range_succ_eq_map, List.map_cons, List.map_map]
    congr 1
    refine List.map_congr_left fun k _ => ?_
    show m (a + (k + 1)) = m (a + 1 + k)
    congr 1
    omega
  induction n generalizing i with
  | zero => rfl
  | succ n ih =>
      unfold memcmpLoop
      rw [add32_eq (by omega), add32_eq (by omega), hread, hread]
      by_cases hsame : m (a + i) = m (b + i)
      · rw [if_neg fun h => h hsame, hsame, compare_cons_self]
        exact ih (by omega) (by omega)
      · rw [if_pos hsame]
        exact compare_cons_ne hsame _ _

end Compare

/-- The comparisons are the order of dictionaries on unsigned bytes, and
`strcmp` ends with the first string. -/
theorem strings_compare {m : Mem} {a b : Nat} {s t : CStr}
    (ha : TextAt m a s.chars) (hb : TextAt m b t.chars) :
    (∀ turns, s.length < turns → ∃ v, strcmp m turns a b = some v
        ∧ compare v 0 = compare s.chars t.chars)
      ∧ (∀ n, compare (strncmp m a b n) 0
        = compare (s.chars.take n) (t.chars.take n))
      ∧ ∀ n, a + n ≤ 2 ^ 32 → b + n ≤ 2 ^ 32 →
        compare (memcmp m a b n) 0 = compare (m.read a n) (m.read b n) := by
  refine ⟨fun turns hturns => strcmp_compare ha hb hturns, fun n => ?_,
    fun n han hbn => ?_⟩
  · exact @strncmp_compare m n a b 0 s.chars t.chars ha hb
  · exact @memcmp_compare m n a b 0 (by omega) (by omega)

/-- `ab` and `ac`, one behind the other. -/
def wordsMem : Mem := fun a => [0x61, 0x62, 0, 0x61, 0x63].getD a 0

def firstWord : CStr := ⟨[0x61, 0x62], by decide⟩

def secondWord : CStr := ⟨[0x61, 0x63], by decide⟩

/-- The first string of the example, in memory. -/
theorem wordsMem_first : TextAt wordsMem 0 firstWord.chars :=
  ⟨rfl, by decide, rfl, by decide, by decide, rfl⟩

/-- The second string of the example, behind the first. -/
theorem wordsMem_second : TextAt wordsMem 3 secondWord.chars :=
  ⟨rfl, by decide, rfl, by decide, by decide, rfl⟩

/-- Two strings that lie one behind the other, compared. -/
theorem strings_compare_words :
    ∃ v, strcmp wordsMem 3 0 3 = some v
      ∧ compare v 0 = compare firstWord.chars secondWord.chars :=
  (strings_compare wordsMem_first wordsMem_second).1 3 (by decide)

-- ======================================================== search and copying

section Copy

variable {m : Mem}

/-- The loop of `strlen` counts on from where it is to the terminator. -/
theorem strlen_length {cs : List UInt8} {a turns n : Nat}
    (h : TextAt m (a + n) cs) (hturns : cs.length < turns) :
    strlenLoop m a turns n = some (n + cs.length) := by
  induction cs generalizing turns n with
  | nil =>
      obtain ⟨turns, rfl⟩ : ∃ k, turns = k + 1 := ⟨turns - 1, by omega⟩
      unfold strlenLoop
      rw [add32_eq h.lt, if_neg fun hne => hne h.2]
      rfl
  | cons c cs ih =>
      obtain ⟨turns, rfl⟩ : ∃ k, turns = k + 1 := ⟨turns - 1, by omega⟩
      rw [List.length_cons] at hturns ⊢
      unfold strlenLoop
      rw [add32_eq h.lt, if_pos (by rw [h.1]; exact h.2.1),
        ih h.2.2 (by omega)]
      congr 1
      omega

/-- The address of the first character that is `(char)c`, or of the
terminator if that is meant. -/
theorem strchr_first {cs : List UInt8} {a turns : Nat} (c : Int32)
    (h : TextAt m a cs) (hturns : cs.length < turns) :
    strchr m c turns a
      = some (if c = 0 then some (a + cs.length)
        else (cs.idxOf? c.toInt8.toUInt8).map (a + ·)) := by
  induction cs generalizing a turns with
  | nil =>
      obtain ⟨turns, rfl⟩ : ∃ k, turns = k + 1 := ⟨turns - 1, by omega⟩
      unfold strchr
      rw [if_neg fun hne => hne h.2]
      rfl
  | cons d cs ih =>
      obtain ⟨turns, rfl⟩ : ∃ k, turns = k + 1 := ⟨turns - 1, by omega⟩
      rw [List.length_cons] at hturns ⊢
      obtain ⟨hd, hne, hrest⟩ := h
      unfold strchr
      rw [hd, if_pos hne, List.idxOf?_cons]
      by_cases hc : c = 0
      · subst hc
        have hzero : d ≠ (0 : Int32).toInt8.toUInt8 := hne
        rw [if_neg hzero, add32_eq hrest.lt, ih hrest (by omega), if_pos rfl,
          if_pos rfl]
        congr 2
        omega
      · by_cases hfound : d = c.toInt8.toUInt8
        · rw [if_pos hfound, if_neg hc, if_pos (by simpa using hfound)]
          rfl
        · rw [if_neg hfound, add32_eq hrest.lt, ih hrest (by omega),
            if_neg hc, if_neg hc, if_neg (by simpa using hfound),
            Option.map_map]
          congr 2
          funext k
          show a + 1 + k = a + (k + 1)
          omega

/-- The loop of `strcpy` leaves the string at its destination, where the two
do not overlap. -/
theorem strcpy_copies {cs : List UInt8} {d a turns : Nat}
    (h : TextAt m a cs) (hfit : d + cs.length < 2 ^ 32)
    (hapart : d + cs.length < a ∨ a + cs.length < d)
    (hturns : cs.length < turns) :
    ∃ m', strcpyLoop turns m d a = some m' ∧ TextAt m' d cs
      ∧ ∀ x, x < d ∨ d + cs.length < x → m' x = m x := by
  induction cs generalizing m d a turns with
  | nil =>
      obtain ⟨turns, rfl⟩ : ∃ k, turns = k + 1 := ⟨turns - 1, by omega⟩
      unfold strcpyLoop
      rw [if_neg fun hne => hne h.2, h.2]
      refine ⟨_, rfl, ⟨hfit, Mem.set_self ..⟩, fun x hx => ?_⟩
      rw [List.length_nil] at hx
      exact Mem.set_ne _ _ (by omega)
  | cons c cs ih =>
      obtain ⟨turns, rfl⟩ : ∃ k, turns = k + 1 := ⟨turns - 1, by omega⟩
      rw [List.length_cons] at hfit hapart hturns ⊢
      obtain ⟨hc, hne, hrest⟩ := h
      -- the rest of the source is not where the character went
      have hkept : TextAt (m.set d c) (a + 1) cs :=
        hrest.congr fun x hx hx' => Mem.set_ne _ _ (by omega)
      obtain ⟨m', hloop, htext, hout⟩ := @ih (m.set d c) (d + 1) (a + 1) turns
        hkept (by omega) (by omega) (by omega)
      have hnext : add32 d 1 = d + 1 := add32_eq (by omega)
      unfold strcpyLoop
      rw [hc, if_pos hne, hnext, add32_eq hrest.lt]
      refine ⟨m', hloop, ⟨?_, hne, htext⟩, fun x hx => ?_⟩
      · rw [hout d (by omega)]
        exact Mem.set_self ..
      · rw [hout x (by omega)]
        exact Mem.set_ne _ _ (by omega)

/-- One byte over and over. -/
theorem fill_eq (v : UInt8) {dst i n : Nat} (h : dst + i + n ≤ 2 ^ 32) :
    upTo n (fun m k => m.set (add32 dst (i + k)) v) m
      = fun x => if dst + i ≤ x ∧ x < dst + i + n then v else m x := by
  induction n with
  | zero =>
      funext x
      rw [if_neg (by omega)]
      rfl
  | succ n ih =>
      have hplace : add32 dst (i + n) = dst + i + n := by
        rw [add32_eq (by omega)]
        omega
      rw [upTo_succ, ih (by omega), hplace]
      funext x
      by_cases hx : x = dst + i + n
      · rw [hx, Mem.set_self, if_pos (by omega)]
      · rw [Mem.set_ne _ _ hx]
        by_cases hin : dst + i ≤ x ∧ x < dst + i + n
        · rw [if_pos hin, if_pos (by omega)]
        · rw [if_neg hin, if_neg (by omega)]

/-- The characters of the string, as far as there is room. -/
theorem strncpyLoop_copies {cs : List UInt8} {dst src i left : Nat}
    (h : TextAt m (src + i) cs) (hfit : dst + i + left ≤ 2 ^ 32)
    (hapart : dst + i + left ≤ src ∨ src + i + cs.length < dst + i) :
    (strncpyLoop dst src left m i).2 = i + min left cs.length
      ∧ ∀ x, (strncpyLoop dst src left m i).1 x
        = if dst + i ≤ x ∧ x < dst + i + min left cs.length
          then cs.getD (x - (dst + i)) 0 else m x := by
  induction left generalizing m i cs with
  | zero =>
      refine ⟨by simp [strncpyLoop], fun x => ?_⟩
      rw [if_neg (by omega)]
      rfl
  | succ left ih =>
      unfold strncpyLoop
      rw [add32_eq h.lt]
      cases cs with
      | nil =>
          rw [if_neg fun hne => hne h.2]
          refine ⟨by simp, fun x => ?_⟩
          rw [if_neg (by simp)]
      | cons c cs =>
          obtain ⟨hc, hne, hrest⟩ := h
          rw [List.length_cons] at hapart ⊢
          have hcopy : copyByte dst src m i = m.set (dst + i) c := by
            unfold copyByte
            rw [add32_eq (by omega), add32_eq (by have := hrest.lt; omega), hc]
          have hkept : TextAt (m.set (dst + i) c) (src + (i + 1)) cs :=
            hrest.congr fun x hx hx' => Mem.set_ne _ _ (by omega)
          obtain ⟨hlen, hmem⟩ := ih hkept (by omega) (by omega)
          rw [hc, if_pos hne, hcopy]
          refine ⟨by rw [hlen]; omega, fun x => ?_⟩
          rw [hmem]
          by_cases hx : x = dst + i
          · rw [if_neg (by omega), if_pos (by omega), hx, Mem.set_self,
              Nat.sub_self]
            rfl
          · by_cases hin : dst + (i + 1) ≤ x
                ∧ x < dst + (i + 1) + min left cs.length
            · have hindex : x - (dst + i) = x - (dst + (i + 1)) + 1 := by omega
              rw [if_pos hin, if_pos (by omega), hindex, List.getD_cons_succ]
            · rw [if_neg hin, if_neg (by omega)]
              exact Mem.set_ne _ _ hx

/-- The string, and zeros in the rest of the room. -/
theorem strncpy_pads {cs : List UInt8} {dst src n : Nat}
    (h : TextAt m src cs) (hfit : dst + n ≤ 2 ^ 32)
    (hapart : dst + n ≤ src ∨ src + cs.length < dst) (x : Nat) :
    (strncpy m dst src n).1 x
      = if dst ≤ x ∧ x < dst + n then cs.getD (x - dst) 0 else m x := by
  obtain ⟨hlen, hmem⟩ := @strncpyLoop_copies m cs dst src 0 n h (by omega)
    (by omega)
  rw [Nat.zero_add] at hlen
  unfold strncpy
  dsimp only
  rw [hlen, fill_eq 0 (by omega)]
  dsimp only
  rw [hmem, Nat.add_zero]
  by_cases hchar : dst ≤ x ∧ x < dst + min n cs.length
  · rw [if_neg (by omega), if_pos hchar, if_pos (by omega)]
  · by_cases hin : dst ≤ x ∧ x < dst + n
    · have hbehind : cs.length ≤ x - dst := by omega
      rw [if_pos (by omega), if_pos hin, List.getD_eq_default _ _ hbehind]
    · rw [if_neg (by omega), if_neg hchar, if_neg hin]

end Copy

/-- The end of a string and its characters are found where they are, and a
copy that does not overlap it is the string, with nothing else changed but
the room that is filled up. -/
theorem strings_copy {m : Mem} {a : Nat} {s : CStr} (h : TextAt m a s.chars) :
    (∀ turns, s.length < turns → strlen m turns a = some s.length
        ∧ ∀ c, strchr m c turns a
          = some (if c = 0 then some (a + s.length)
            else (s.chars.idxOf? c.toInt8.toUInt8).map (a + ·)))
      ∧ (∀ d turns, s.length < turns → d + s.length < 2 ^ 32 →
        d + s.length < a ∨ a + s.length < d →
        ∃ m', strcpy m turns d a = some (m', d) ∧ TextAt m' d s.chars
          ∧ TextAt m' a s.chars
          ∧ ∀ x, x < d ∨ d + s.length < x → m' x = m x)
      ∧ ∀ d n, d + n ≤ 2 ^ 32 → d + n ≤ a ∨ a + s.length < d → ∀ x,
        (strncpy m d a n).1 x
          = if d ≤ x ∧ x < d + n then s.chars.getD (x - d) 0 else m x := by
  refine ⟨fun turns hturns => ⟨?_, fun c => strchr_first c h hturns⟩,
    fun d turns hturns hfit hapart => ?_,
    fun d n hfit hapart x => strncpy_pads h hfit hapart x⟩
  · have hlen := @strlen_length m s.chars a turns 0 h hturns
    rw [Nat.zero_add] at hlen
    exact hlen
  · obtain ⟨m', hloop, htext, hout⟩ := strcpy_copies h hfit hapart hturns
    refine ⟨m', ?_, htext, h.congr fun x hx hx' => hout x ?_, hout⟩
    · unfold strcpy
      rw [hloop]
      rfl
    · have hlen : s.chars.length = s.length := rfl
      omega

/-- A string that is copied to a place apart. -/
theorem strings_copy_words :
    ∃ m', strcpy wordsMem 3 0x20 0 = some (m', 0x20)
      ∧ TextAt m' 0x20 firstWord.chars ∧ TextAt m' 0 firstWord.chars
      ∧ ∀ x, x < 0x20 ∨ 0x20 + firstWord.length < x → m' x = wordsMem x :=
  (strings_copy wordsMem_first).2.1 0x20 3 (by decide) (by decide) (by decide)

end Thuos.Core
