/-
What the log and the history replay.

Both are rings under a count of 32 bits of everything ever recorded. The
slot of an entry is its number modulo the size of the ring, and that size
divides `2 ^ 32`, so the entries lie where they would if the count did not
wrap (`LogHolds`, `HistHolds`). The window that is replayed is computed
from the count, though: after it has wrapped, `klog_dump` replays too
little until the count is past the size of the ring again, and
`cmd_history` numbers the entries from the wrap on.
-/
import Thuos.Core.Proofs.Emitted
import Thuos.Lib.CycleRing
import Thuos.Lib.Machine
import Thuos.Shell.Proofs.ReadBack
import Thuos.Shell.Shell

namespace Thuos.Shell

open CycleRing Machine Numeral Gui Thuos.Core

-- ================================================================= the counts

/-- The counter after one more. -/
theorem count_succ {w : UInt32} {n : Nat} (h : w.toNat = n % 2 ^ 32) :
    (w + 1).toNat = (n + 1) % 2 ^ 32 := by
  rw [UInt32.toNat_add, h]
  show (n % 2 ^ 32 + 1) % 2 ^ 32 = _
  omega

/-- The slot does not depend on the wraps. -/
theorem slot_of_count {m n : Nat} (hm : m ∣ 2 ^ 32) :
    n % 2 ^ 32 % m = n % m := Nat.mod_mod_of_dvd n hm

-- ==================================================================== the log

/-- The log after the characters `text`. -/
structure LogHolds (k : Kout) (text : List UInt8) : Prop where
  count : k.klogW.toNat = text.length % 2 ^ 32
  laid : Laid KLOG_CAP (fun c _ => c) (fun _ => 0) k.klogBuf text

section Log

variable {glyph : Glyphs} {k : Kout} {text : List UInt8}

theorem LogHolds.kputc (h : LogHolds k text) (glyph : Glyphs) (c : UInt8) :
    LogHolds (kputc glyph k c) (text ++ [c]) := by
  have hslot : k.klogW.toNat % KLOG_CAP = text.length % KLOG_CAP := by
    rw [h.count]
    exact slot_of_count (by decide)
  refine ⟨?_, ?_⟩
  · rw [List.length_append]
    exact count_succ h.count
  · apply h.laid.push (by decide) c
    · show Function.update k.klogBuf _ c _ = c
      rw [hslot, Function.update_self]
    · intro i _ hne
      show Function.update k.klogBuf _ c i = k.klogBuf i
      rw [hslot, Function.update_of_ne hne]

theorem LogHolds.exec (h : LogHolds k text) (more : List UInt8) :
    LogHolds (exec (Thuos.Core.kputc glyph) k more) (text ++ more) := by
  induction more generalizing k text with
  | nil =>
      rw [List.append_nil]
      exact h
  | cons c more ih =>
      have hrest := ih (h.kputc glyph c)
      rw [List.append_assoc] at hrest
      exact hrest

/-- Where the window of `klog_dump` starts, and how it lies. -/
theorem LogHolds.window (h : LogHolds k text) {o r : Nat}
    (ho : KLOG_CAP ∣ o) (hlen : o + r = text.length)
    (hcount : k.klogW.toNat = r) :
    klogText k = text.drop (o + if r > KLOG_CAP then r - KLOG_CAP else 0) := by
  unfold klogText
  dsimp only
  rw [hcount]
  by_cases hr : r > KLOG_CAP
  · rw [if_pos hr]
    have hwin := h.laid.window (s := r - KLOG_CAP) (f := id) ho hlen
      (Nat.sub_le ..) (by omega)
    rw [List.map_id] at hwin
    exact hwin
  · rw [if_neg hr]
    have hwin := h.laid.window (s := 0) (f := id) ho hlen (Nat.zero_le r)
      (by omega)
    rw [List.map_id] at hwin
    exact hwin

/-- The dump is the recent part of the text exactly while the count has
not just wrapped. -/
theorem LogHolds.dump_iff (h : LogHolds k text) :
    klogText k = text.drop (text.length - KLOG_CAP)
      ↔ text.length < 2 ^ 32 ∨ KLOG_CAP ≤ text.length % 2 ^ 32 := by
  have hcount := h.count
  have hdiv := Nat.div_add_mod text.length (2 ^ 32)
  have hcap : KLOG_CAP ∣ 2 ^ 32 * (text.length / 2 ^ 32) :=
    Dvd.dvd.mul_right (by decide) _
  have hwin := h.window hcap hdiv hcount
  have hsize : KLOG_CAP = 8192 := rfl
  rw [hwin]
  constructor
  · intro heq
    by_contra hwrapped
    have hlen := congrArg List.length heq
    rw [List.length_drop, List.length_drop] at hlen
    have hlow : ¬ text.length % 2 ^ 32 > KLOG_CAP := by omega
    rw [if_neg hlow] at hlen
    omega
  · intro hcond
    have hstart : 2 ^ 32 * (text.length / 2 ^ 32)
        + (if text.length % 2 ^ 32 > KLOG_CAP
            then text.length % 2 ^ 32 - KLOG_CAP else 0)
          = text.length - KLOG_CAP := by
      split
      · omega
      · omega
    rw [hstart]

/-- So is what the dump emits. -/
theorem LogHolds.emits_iff (h : LogHolds k text) (glyph : Glyphs) :
    Emits glyph (klogDump glyph) k (text.drop (text.length - KLOG_CAP))
      ↔ text.length < 2 ^ 32 ∨ KLOG_CAP ≤ text.length % 2 ^ 32 := by
  rw [← h.dump_iff]
  constructor
  · exact (emits_klogDump glyph k).unique
  · intro heq
    rw [← heq]
    exact emits_klogDump glyph k

end Log

-- ================================================================ the history

/-- The history after the lines `ls`. -/
structure HistHolds (h : Hist) (ls : List CStr) : Prop where
  count : h.histN.toNat = ls.length % 2 ^ 32
  laid : Laid HIST_MAX (fun l _ => CStr.take l (LINE_MAX - 1)) (fun _ => 0)
    h.hist ls

section History

variable {h : Hist} {ls : List CStr}

theorem HistHolds.record (hh : HistHolds h ls) {l : CStr}
    (hl : l.chars ≠ []) : HistHolds (histRecord h l) (ls ++ [l]) := by
  have hslot : h.histN.toNat % HIST_MAX = ls.length % HIST_MAX := by
    rw [hh.count]
    exact slot_of_count (by decide)
  unfold histRecord
  rw [if_neg hl]
  refine ⟨?_, ?_⟩
  · rw [List.length_append]
    exact count_succ hh.count
  · apply hh.laid.push (by decide) l
    · show Function.update h.hist _ _ _ = _
      rw [hslot, Function.update_self]
    · intro i _ hne
      show Function.update h.hist _ _ i = _
      rw [hslot, Function.update_of_ne hne]

/-- Empty lines are not recorded. -/
theorem HistHolds.exec (hh : HistHolds h ls) (lines : List CStr) :
    HistHolds (exec histRecord h lines)
      (ls ++ lines.filter fun l => l.chars ≠ []) := by
  induction lines generalizing h ls with
  | nil =>
      rw [List.filter_nil, List.append_nil]
      exact hh
  | cons l lines ih =>
      by_cases hl : l.chars = []
      · have hskip : histRecord h l = h := if_pos hl
        rw [exec_cons, hskip, List.filter_cons_of_neg (by simpa using hl)]
        exact ih hh
      · have hrest := ih (hh.record hl)
        rw [List.append_assoc] at hrest
        rw [List.filter_cons_of_pos (by simpa using hl)]
        exact hrest

/-- A number in decimal. -/
def decimal (n : Nat) : List UInt8 := (numeral 10 n).map (digitChar false)

/-- The line of the entry with the number `n`. -/
def entryText (n : Nat) (l : CStr) : List UInt8 :=
  [32, 32] ++ decimal n ++ [32, 32] ++ l.chars ++ [10]

/-- The last lines, the oldest first, each with its number. -/
def listing (ls : List CStr) : List UInt8 :=
  if ls = [] then say "(no commands yet)\n" []
  else
    ((ls.zipIdx 1).drop (ls.length - HIST_MAX)).flatMap fun p =>
      entryText p.2 (p.1.take (LINE_MAX - 1))

theorem decimal_eq (w : UInt32) : printUint w 10 false 0 = decimal w.toNat := by
  rw [printUint_eq w (by decide), Nat.zero_sub]
  rfl

theorem say_entry (w : UInt32) (l : CStr) :
    say "  %u  %s\n" [.word w, .str (some l)] = entryText w.toNat l := by
  unfold entryText
  rw [← decimal_eq]
  show 32 :: 32 :: (printUint w 10 false 0 ++ 32 :: 32 :: (l.chars ++ [10]))
    = _
  simp

theorem decimal_digits (n : Nat) :
    digits decDigit (decimal n) = some (numeral 10 n) := by
  apply digits_map
  intro d hd
  exact decDigit_char (numeral_lt (by decide) hd)

/-- No digit is a space. -/
theorem decimal_no_space (n : Nat) : ∀ c ∈ decimal n, c ≠ 32 := by
  intro c hc
  obtain ⟨d, hd, rfl⟩ := List.mem_map.mp hc
  intro heq
  have hread := decDigit_char (numeral_lt (by decide) hd)
  rw [heq] at hread
  cases hread

/-- The number of an entry can be read off. -/
theorem entryText_inj {n m : Nat} {l l' : CStr} {x y : List UInt8}
    (h : entryText n l ++ x = entryText m l' ++ y) : n = m := by
  have hcut : ∀ (n : Nat) (z : List UInt8),
      (decimal n ++ 32 :: z).takeWhile (· ≠ 32) = decimal n := by
    intro n z
    rw [List.takeWhile_append_of_pos]
    · simp
    · intro c hc
      exact decide_eq_true (decimal_no_space n c hc)
  have htail : decimal n ++ 32 :: (32 :: (l.chars ++ [10]) ++ x)
      = decimal m ++ 32 :: (32 :: (l'.chars ++ [10]) ++ y) := by
    have hdrop := congrArg (List.drop 2) h
    simpa [entryText] using hdrop
  have hdec : decimal n = decimal m := by
    rw [← hcut n, htail, hcut]
  have hnum : numeral 10 n = numeral 10 m := by
    have hsome := (decimal_digits n).symm.trans
      ((congrArg (digits decDigit) hdec).trans (decimal_digits m))
    exact Option.some.inj hsome
  rw [← value_numeral 10 n, hnum, value_numeral]

/-- What `cmd_history` prints, with its 32-bit number as a number. -/
theorem cmdHistory_eq (h : Hist) :
    cmdHistory h
      = if h.histN.toNat = 0 then say "(no commands yet)\n" []
        else
          (List.range' (h.histN.toNat - HIST_MAX)
            (h.histN.toNat - (h.histN.toNat - HIST_MAX))).flatMap fun i =>
              entryText (i + 1) (h.hist (i % HIST_MAX)) := by
  have hlt := h.histN.toNat_lt
  have hstart : (if h.histN.toNat > HIST_MAX then h.histN.toNat - HIST_MAX
      else 0) = h.histN.toNat - HIST_MAX := by
    split
    · rfl
    · omega
  unfold cmdHistory
  dsimp only
  rw [hstart]
  congr 1
  apply List.flatMap_congr
  intro i hi
  have hi' : i + 1 < 2 ^ 32 := by
    have := (List.mem_range'_1.mp hi).2
    omega
  have hnext : (UInt32.ofNat i + 1).toNat = i + 1 := by
    have hnum : (UInt32.ofNat i).toNat = i :=
      UInt32.toNat_ofNat_of_lt' (Nat.lt_of_succ_lt hi')
    rw [UInt32.toNat_add, hnum]
    exact Nat.mod_eq_of_lt hi'
  rw [say_entry, hnext]

/-- While the count has not wrapped, the ring holds the last lines. -/
theorem HistHolds.entries (hh : HistHolds h ls) :
    (List.range' (ls.length - HIST_MAX)
        (ls.length - (ls.length - HIST_MAX))).map
        (fun i => entryText (i + 1) (h.hist (i % HIST_MAX)))
      = ((ls.zipIdx 1).drop (ls.length - HIST_MAX)).map fun p =>
        entryText p.2 (p.1.take (LINE_MAX - 1)) := by
  apply List.ext_getElem
  · simp
  · intro i hi hi'
    rw [List.length_map, List.length_range'] at hi
    have hget := hh.laid.get (c := ls.length - HIST_MAX + i) (by omega)
      (by omega)
    simp only [List.getElem_map, List.getElem_range', List.getElem_drop,
      List.getElem_zipIdx, Nat.one_mul]
    rw [hget, Nat.add_comm 1]

theorem HistHolds.listing_iff (hh : HistHolds h ls) :
    cmdHistory h = listing ls ↔ ls.length < 2 ^ 32 := by
  have hcount := hh.count
  constructor
  · intro heq
    by_contra hwrapped
    have hne : ls ≠ [] := by
      rintro rfl
      exact hwrapped (by decide)
    -- the listing starts with the number of the first line in it
    have hlisted : ∃ l x, listing ls
        = entryText (ls.length - HIST_MAX + 1) l ++ x := by
      have hfirst : ls.length - HIST_MAX < (ls.zipIdx 1).length := by
        have hsize : HIST_MAX = 16 := rfl
        rw [List.length_zipIdx]
        omega
      unfold listing
      rw [if_neg hne, List.drop_eq_getElem_cons hfirst, List.flatMap_cons]
      simp only [List.getElem_zipIdx]
      rw [Nat.add_comm 1]
      exact ⟨_, _, rfl⟩
    obtain ⟨l, x, hx⟩ := hlisted
    rw [hx, cmdHistory_eq] at heq
    by_cases hzero : h.histN.toNat = 0
    · rw [if_pos hzero] at heq
      have hhead := congrArg List.head? heq
      have hnone : (say "(no commands yet)\n" []).head? = some 40 := by decide
      rw [hnone] at hhead
      have hspace : some (40 : UInt8) = some 32 := hhead
      exact absurd hspace (by decide)
    · obtain ⟨n, hn⟩ : ∃ n, h.histN.toNat - (h.histN.toNat - HIST_MAX)
          = n + 1 := by
        have hsize : HIST_MAX = 16 := rfl
        exact ⟨h.histN.toNat - (h.histN.toNat - HIST_MAX) - 1, by omega⟩
      rw [if_neg hzero, hn, List.range'_succ, List.flatMap_cons] at heq
      have hnum := entryText_inj heq
      have hlt := h.histN.toNat_lt
      have hsize : HIST_MAX = 16 := rfl
      omega
  · intro hlt
    rw [Nat.mod_eq_of_lt hlt] at hcount
    rw [cmdHistory_eq, hcount]
    unfold listing
    by_cases hnil : ls = []
    · subst hnil
      rfl
    · have hpos : ls.length ≠ 0 := fun h => hnil (List.length_eq_zero_iff.mp h)
      rw [if_neg hpos, if_neg hnil, List.flatMap_def, List.flatMap_def,
        hh.entries]

end History

-- ================================================================= the result

/-- From boot on, for every text that was printed and all lines that were
executed: the dump emits the recent text, whatever the sinks are, exactly
while fewer than `2 ^ 32` characters were printed, or the count has come
round past the size of the log, and leaves the log as it is; the history
is right exactly while fewer than `2 ^ 32` lines were recorded. -/
theorem replay_iff (glyph : Glyphs) (sinks : Sinks) (buf : Nat → UInt8)
    (hist : Nat → CStr) (text : List UInt8) (lines : List CStr) :
    let k := exec (kputc glyph) ⟨sinks, buf, 0⟩ text
    let h := exec histRecord ⟨hist, 0⟩ lines
    let ls := lines.filter fun l => l.chars ≠ []
    (Emits glyph (klogDump glyph) k (text.drop (text.length - KLOG_CAP))
        ↔ text.length < 2 ^ 32 ∨ KLOG_CAP ≤ text.length % 2 ^ 32)
      ∧ (klogDump glyph k).klogBuf = k.klogBuf
      ∧ (klogDump glyph k).klogW = k.klogW
      ∧ (cmdHistory h = listing ls ↔ ls.length < 2 ^ 32) := by
  intro k h ls
  have hlog : LogHolds k ([] ++ text) :=
    LogHolds.exec ⟨rfl, laid_nil fun _ _ => rfl⟩ text
  have hhist : HistHolds h ([] ++ ls) :=
    HistHolds.exec ⟨rfl, laid_nil fun _ _ => rfl⟩ lines
  exact ⟨hlog.emits_iff glyph, rfl, rfl, hhist.listing_iff⟩

/-- After `2 ^ 32` characters the dump sends something else than the last
8192 over the serial line, and after `2 ^ 32` lines the history is not the
last 16. -/
theorem replay_forgets :
    let text : List UInt8 := List.replicate (2 ^ 32) 0x61
    let lines := List.replicate (2 ^ 32) (CStr.ofString "ls")
    let k := exec (kputc fun _ _ => 0) ⟨Sinks.boot, fun _ => 0, 0⟩ text
    (klogDump (fun _ _ => 0) k).sinks.serial
        ≠ k.sinks.serial
          ++ (text.drop (text.length - KLOG_CAP)).flatMap serialWriteChar
      ∧ cmdHistory (exec histRecord ⟨fun _ => CStr.empty, 0⟩ lines)
        ≠ listing lines := by
  intro text lines k
  have hlog : LogHolds k ([] ++ text) :=
    LogHolds.exec ⟨rfl, laid_nil fun _ _ => rfl⟩ text
  have hhist : HistHolds
      (exec histRecord ⟨fun _ => CStr.empty, 0⟩ lines)
      ([] ++ lines.filter fun l => l.chars ≠ []) :=
    HistHolds.exec ⟨rfl, laid_nil fun _ _ => rfl⟩ lines
  have hall : lines.filter (fun l => l.chars ≠ []) = lines := by
    apply List.filter_eq_self.mpr
    intro l hl
    rw [List.eq_of_mem_replicate hl]
    decide
  have htext : text.length = 2 ^ 32 := List.length_replicate
  have hlines : lines.length = 2 ^ 32 := List.length_replicate
  rw [List.nil_append] at hlog hhist
  rw [hall] at hhist
  refine ⟨fun heq => ?_, fun heq => ?_⟩
  · have hmirror : k.sinks.serialMirror = true := by
      have hboot : Sinks.boot.serialMirror = true := rfl
      have hkept := (serial_rawPutcs (fun _ _ => 0) hboot text).1
      rw [← hkept, ← kputc_sinks (k := ⟨Sinks.boot, fun _ => 0, 0⟩)]
    rw [klogDump_serial _ hmirror] at heq
    have hcond := hlog.dump_iff.mp (serial_inj (List.append_cancel_left heq))
    have hsize : KLOG_CAP = 8192 := rfl
    omega
  · have hcond := hhist.listing_iff.mp heq
    omega

end Thuos.Shell
