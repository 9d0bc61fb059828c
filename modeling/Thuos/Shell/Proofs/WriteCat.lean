/-
When a file that was written can be read back by its name.

`cmd_write` cuts a name to 31 bytes, `cmd_cat` looks for all of it. A
name of up to 31 bytes is found again, and no other name's file is
touched. A longer one is not found, and the file of its first 31 bytes
is lost; nobody notices if the text was the message that `cat` has for a
file that is missing, and was in that other file before (`Kept`).

All the filesystem's names are short (`Short`), whatever was written, so
what is read under a long name is always nothing.
-/
import Thuos.Core.Proofs.Emitted
import Thuos.Fs.Proofs.KfsRoom
import Thuos.Shell.Shell

namespace Thuos.Shell

open Fs Gui Machine ByteMem Thuos.Core

-- =================================================================== the lines

/-- A command and its argument string, with a space in between. -/
def lineOf (cmd args : CStr) : CStr :=
  ⟨cmd.chars ++ 32 :: args.chars, by
    simp [cmd.noNul, args.noNul]⟩

/-- A file name as it can be typed. -/
structure Named (name : CStr) : Prop where
  nonempty : name.chars ≠ []
  no_space : 32 ∉ name.chars

/-- A line `write F T` that fits the line buffer. -/
structure WriteLine where
  name : CStr
  text : CStr
  named : Named name
  typed : ∀ c ∈ text.chars, 0x20 ≤ c.toInt8
  fits : 6 + name.length + 1 + text.length ≤ LINE_MAX - 1

def WriteLine.line (l : WriteLine) : CStr :=
  lineOf (CStr.ofString "write") (lineOf l.name l.text)

/-- The line `cat F`. -/
def catLine (name : CStr) : CStr := lineOf (CStr.ofString "cat") name

-- ================================================================ the property

section Claim

variable (glyph : Glyphs) (other : CStr → CStr → ShellState → ShellState)

/-- What a line prints over the filesystem, whatever was printed before. -/
def Prints (kfs : Ramfs) (line : CStr) (out : List UInt8) : Prop :=
  ∀ s : ShellState, s.kfs = kfs →
    (execute glyph other s line).kout = kputsAll glyph s.kout out

/-- A write reports success. -/
def Succeeds (kfs : Ramfs) (line : CStr) : Prop :=
  ∃ n name, Prints glyph other kfs line
    (say "wrote %d bytes to '%s'\n" [.word n, .str (some name)])

/-- After a write that reports success, `cat F` prints the text, and other
files print what they did. -/
def WriteCat (s : ShellState) (l : WriteLine) : Prop :=
  let kfs := (execute glyph other s l.line).kfs
  Succeeds glyph other s.kfs l.line →
    Prints glyph other kfs (catLine l.name) (l.text.chars ++ [10])
      ∧ ∀ name out, Named name → name ≠ l.name →
        4 + name.length ≤ LINE_MAX - 1 →
        Prints glyph other s.kfs (catLine name) out →
          Prints glyph other kfs (catLine name) out

end Claim

/-- What `cat` says of a file that is missing. -/
def notFound (name : CStr) : List UInt8 :=
  (CStr.ofString "cat: ").chars ++ name.chars
    ++ (CStr.ofString ": not found").chars

/-- The name is short, or the write is refused; or the text is what `cat`
says of the name, and is in the file of its first 31 bytes already, with
or without a newline behind it. -/
def Kept (kfs : Ramfs) (l : WriteLine) : Prop :=
  l.name.length ≤ 31
    ∨ Refused kfs (l.name.take 31) l.text.chars
    ∨ l.text.chars = notFound l.name
      ∧ (kfsRead kfs (l.name.take 31) = some l.text.chars
        ∨ kfsRead kfs (l.name.take 31) = some (l.text.chars ++ [10]))

instance (kfs : Ramfs) (l : WriteLine) : Decidable (Kept kfs l) :=
  inferInstanceAs (Decidable (_ ∨ _ ∨ _ ∧ (_ ∨ _)))

-- ============================================================== the filesystem

/-- A call of `kfs_write`, with a name as the callers have it. -/
structure KfsCall extends Write where
  named : 1 ≤ name.length ∧ name.length ≤ 31
  short : data.length < 2 ^ 31

/-- The filesystem after `kfs_init` and the calls. -/
def kfsAfter (kfiles : Vector RFile KFS_MAX_FILES) (karena : Mem)
    (calls : List KfsCall) : Ramfs :=
  exec (fun kfs c => (kfsWrite kfs c.name c.data).1) (kfsInit kfiles karena)
    calls

/-- A filesystem with names of 31 bytes at most. -/
structure Short (kfs : Ramfs) (log : Log) : Prop where
  stores : Stores KFS_ARENA kfs log
  names : ∀ n ∈ log.map Prod.fst, n.length ≤ 31

section Filesystem

variable {kfs : Ramfs} {log : Log}

/-- With names of at most 31 bytes, a call is one that the table of names
speaks about. -/
theorem Short.inDomain (h : Short kfs log) (c : KfsCall) :
    InDomain kfs c.toWrite ∧ Fs.Sound kfs c.toWrite := by
  have hused := h.stores.used_le
  have hsize := h.stores.size_eq
  have harena : KFS_ARENA = 65536 := by decide
  have hshort := c.short
  refine ⟨⟨c.named.1, c.named.2, by omega⟩, fun hlen => ?_⟩
  omega

/-- A write with such a name leaves a filesystem in which all names are as
short. -/
theorem Short.write (h : Short kfs log) (c : KfsCall) :
    Short (kfsWrite kfs c.name c.data).1 (logStep (kfs, log) c.toWrite).2 := by
  obtain ⟨hdom, hsound⟩ := h.inDomain c
  have hnext : Stores KFS_ARENA (logStep (kfs, log) c.toWrite).1
      (logStep (kfs, log) c.toWrite).2 := stores_step h.stores hdom hsound
  refine ⟨hnext, fun n hn => ?_⟩
  unfold logStep at hn
  dsimp only at hn
  split at hn
  · exact h.names n hn
  · rcases List.mem_cons.mp hn with rfl | hn
    · exact c.named.2
    · exact h.names n hn

/-- A run of calls. -/
theorem short_after (kfiles : Vector RFile KFS_MAX_FILES) (karena : Mem)
    (calls : List KfsCall) : ∃ log, Short (kfsAfter kfiles karena calls) log := by
  apply exec_inv' (fun kfs => ∃ log, Short kfs log)
  · rintro kfs c ⟨log, h⟩
    exact ⟨_, h.write c⟩
  · have hnames : [welcomeTxt, readmeTxt].length < KFS_MAX_FILES := by decide
    obtain ⟨hkfs, -⟩ := kfsInit_of kfiles karena hnames (by decide) (by decide)
    refine ⟨_, hkfs.stores, fun n hn => ?_⟩
    have hall : ∀ n ∈ [welcomeTxt, readmeTxt], n.length ≤ 31 := by
      decide +kernel
    exact hall n (hkfs.named hn)

/-- No file has a long name. -/
theorem Short.read_long (h : Short kfs log) {n : CStr} (hn : 31 < n.length) :
    kfsRead kfs n = none := by
  unfold kfsRead
  rw [readBytes_eq_lookup h.stores]
  cases hl : log.lookup n with
  | none => rfl
  | some d =>
      obtain ⟨l₁, l₂, hlog, -⟩ := List.lookup_eq_some_iff.mp hl
      have hmem : n ∈ log.map Prod.fst := by
        rw [hlog]
        simp
      have hle := h.names n hmem
      omega

/-- What a call does, to its name and to the others. -/
theorem Short.write_read (h : Short kfs log) (c : KfsCall) :
    (Refused kfs c.name c.data
        ∧ kfsWrite kfs c.name c.data = (kfs, -1))
      ∨ ¬ Refused kfs c.name c.data
        ∧ 0 ≤ (kfsWrite kfs c.name c.data).2
        ∧ kfsRead (kfsWrite kfs c.name c.data).1 c.name = some c.data
        ∧ ∀ n ≠ c.name,
          kfsRead (kfsWrite kfs c.name c.data).1 n = kfsRead kfs n := by
  obtain ⟨hdom, hsound⟩ := h.inDomain c
  have hnext := (h.write c).stores
  have hpos : 0 ≤ toInt32 c.data.length := by
    have hshort := c.short
    unfold toInt32
    rw [if_pos hshort]
    omega
  rcases ramfsWrite_any kfs c.name c.data with
    ⟨hno, hw⟩ | ⟨hok, idx, -, hw⟩
  · exact Or.inl ⟨hno, hw⟩
  · refine Or.inr ⟨hok, ?_, ?_, fun n hn => ?_⟩
    · unfold kfsWrite
      rw [hw]
      exact hpos
    · have hlog : (logStep (kfs, log) c.toWrite).2
          = (c.name, c.data) :: log := by
        unfold logStep
        dsimp only
        rw [hw]
        apply if_neg
        intro hneg
        have hneg : toInt32 c.data.length = -1 := hneg
        omega
      rw [hlog] at hnext
      exact (readBytes_eq_lookup hnext c.name).trans List.lookup_cons_self
    · exact readBytes_ramfsWrite_ne h.stores hdom hsound hn

end Filesystem

-- ================================================================ the commands

section Commands

variable {kfs : Ramfs} {cmd args : CStr}

/-- A text up to its first space, and from there on. -/
theorem cut_space {xs : List UInt8} (h : 32 ∉ xs) (ys : List UInt8) :
    (xs ++ 32 :: ys).takeWhile (· ≠ 32) = xs
      ∧ (xs ++ 32 :: ys).dropWhile (· ≠ 32) = 32 :: ys := by
  have hne : ∀ c ∈ xs, decide (c ≠ 32) = true := by
    intro c hc
    apply decide_eq_true
    rintro rfl
    exact h hc
  constructor
  · rw [List.takeWhile_append_of_pos hne]
    simp
  · rw [List.dropWhile_append_of_pos hne]
    simp

/-- The first word of a command line is the command, if there is no blank in
it. -/
theorem word_lineOf (h : 32 ∉ cmd.chars) : word (lineOf cmd args) = cmd :=
  CStr.ext_chars (cut_space h args.chars).1

/-- Behind the first word of a command line stand a blank and the arguments.
-/
theorem behindWord_lineOf (h : 32 ∉ cmd.chars) :
    (behindWord (lineOf cmd args)).chars = 32 :: args.chars :=
  (cut_space h args.chars).2

/-- The argument string of a line, if it does not start with a space. -/
theorem argsOf_lineOf (h : 32 ∉ cmd.chars) {c : UInt8} {cs : List UInt8}
    (hargs : args.chars = c :: cs) (hc : c ≠ 32) :
    argsOf (lineOf cmd args) = args := by
  apply CStr.ext_chars
  unfold argsOf
  dsimp only
  rw [behindWord_lineOf h, hargs]
  simp [hc]

/-- What `cat` prints of the contents of a file. -/
def shown (d : List UInt8) : List UInt8 :=
  d ++ if d = [] ∨ d.getLast? ≠ some 10 then [10] else []

/-- A text typed on a line has no newline at its end. -/
theorem shown_iff {text d : List UInt8} (h : ∀ c ∈ text, 0x20 ≤ c.toInt8)
    (hne : text ≠ [] ∨ d = text) :
    shown d = text ++ [10] ↔ d = text ∨ d = text ++ [10] := by
  have hlast : text.getLast? ≠ some 10 := by
    intro hten
    exact absurd (h 10 (List.mem_of_getLast? hten)) (by decide)
  constructor
  · intro heq
    unfold shown at heq
    split at heq
    · exact Or.inl (List.append_cancel_right heq)
    · rw [List.append_nil] at heq
      exact Or.inr heq
  · rintro (rfl | rfl)
    · unfold shown
      rw [if_pos (Or.inr hlast)]
    · unfold shown
      rw [if_neg, List.append_nil]
      rintro (hnil | hten)
      · exact absurd hnil (by simp)
      · exact hten List.getLast?_concat

/-- `cat` of a name that no file has says so, and ends the line. -/
theorem say_notFound (name : CStr) :
    say "cat: %s: not found\n" [.str (some name)] = notFound name ++ [10] := by
  have hsay : say "cat: %s: not found\n" [.str (some name)]
      = 99 :: 97 :: 116 :: 58 :: 32
        :: (name.chars ++ (CStr.ofString ": not found\n").chars) := rfl
  rw [hsay]
  unfold notFound
  rw [List.append_assoc, List.append_assoc]
  rfl

/-- With a name for its argument, `cat` prints what is read of that file. -/
theorem cmdCat_named (h : Named args) :
    cmdCat kfs args = match kfsRead kfs args with
      | none => notFound args ++ [10]
      | some d => shown d := by
  unfold cmdCat
  rw [if_neg h.nonempty]
  cases kfsRead kfs args with
  | none => exact say_notFound args
  | some d => rfl

/-- A write splits its argument at the first space. -/
theorem cmdWrite_named (kfs : Ramfs) {name : CStr} (h : 32 ∉ name.chars)
    (text : CStr) :
    cmdWrite kfs (lineOf name text)
      = let (kfs, w) := kfsWrite kfs (name.take 31) text.chars
        if w < 0 then
          (kfs, say "write: failed (file table or arena full)\n" [])
        else
          (kfs, say "wrote %d bytes to '%s'\n"
            [.word (UInt32.ofInt w), .str (some (name.take 31))]) := by
  unfold cmdWrite
  rw [behindWord_lineOf h, word_lineOf h]

end Commands

section Printing

variable {glyph : Glyphs} {other : CStr → CStr → ShellState → ShellState}
  {kfs : Ramfs}

/-- To execute the command line prints what `cat` prints of the name, and
nothing else. -/
theorem prints_cat {name : CStr} (h : Named name) :
    Prints glyph other kfs (catLine name) (cmdCat kfs name) := by
  rintro s rfl
  have hcmd : 32 ∉ (CStr.ofString "cat").chars := by decide
  have hargs : argsOf (catLine name) = name := by
    obtain ⟨c, cs, hchars⟩ := List.exists_cons_of_ne_nil h.nonempty
    apply argsOf_lineOf hcmd hchars
    rintro rfl
    apply h.no_space
    rw [hchars]
    exact List.mem_cons_self
  unfold execute
  dsimp only
  rw [hargs]
  unfold catLine
  rw [word_lineOf hcmd, if_neg (by decide), if_neg (by decide),
    if_neg (by decide), if_pos rfl]
  rfl

/-- A write line: what it prints, and what it leaves. -/
theorem execute_write (s : ShellState) (l : WriteLine) :
    (execute glyph other s l.line).kfs
        = (cmdWrite s.kfs (lineOf l.name l.text)).1
      ∧ (execute glyph other s l.line).kout
        = kputsAll glyph s.kout (cmdWrite s.kfs (lineOf l.name l.text)).2 := by
  have hcmd : 32 ∉ (CStr.ofString "write").chars := by decide
  have hargs : argsOf l.line = lineOf l.name l.text := by
    obtain ⟨c, cs, hchars⟩ := List.exists_cons_of_ne_nil l.named.nonempty
    have hargs : (lineOf l.name l.text).chars
        = c :: (cs ++ 32 :: l.text.chars) := by
      unfold lineOf
      dsimp only
      rw [hchars, List.cons_append]
    apply argsOf_lineOf hcmd hargs
    · rintro rfl
      apply l.named.no_space
      rw [hchars]
      exact List.mem_cons_self
  unfold execute
  dsimp only
  rw [hargs]
  unfold WriteLine.line
  rw [word_lineOf hcmd, if_neg (by decide), if_neg (by decide),
    if_neg (by decide), if_neg (by decide), if_pos rfl]
  exact ⟨rfl, rfl⟩

/-- The serial line gets everything that is printed. -/
theorem serial_kputsAll (glyph : Glyphs) (k : Kout)
    (hmirror : k.sinks.serialMirror = true) (text : List UInt8) :
    (kputsAll glyph k text).sinks.serial
      = k.sinks.serial ++ text.flatMap serialWriteChar := by
  have hsinks : (kputsAll glyph k text).sinks
      = exec (rawPutc glyph) k.sinks text := kputc_sinks glyph k text
  rw [hsinks]
  exact (serial_rawPutcs glyph hmirror text).2

/-- A line prints one text. -/
theorem Prints.unique {line : CStr} {out out' : List UInt8}
    (h : Prints glyph other kfs line out)
    (h' : Prints glyph other kfs line out') : out = out' := by
  let s : ShellState :=
    { kout := ⟨Sinks.boot, fun _ => 0, 0⟩
      kfs := kfs
      hist := ⟨fun _ => CStr.empty, 0⟩
      line := [] }
  have heq := (h s rfl).symm.trans (h' s rfl)
  have hserial : (kputsAll glyph s.kout out).sinks.serial
      = (kputsAll glyph s.kout out').sinks.serial := by
    rw [heq]
  rw [serial_kputsAll glyph s.kout rfl, serial_kputsAll glyph s.kout rfl]
    at hserial
  exact serial_inj (List.append_cancel_left hserial)

end Printing

-- ================================================================= the result

section Result

variable {glyph : Glyphs} {other : CStr → CStr → ShellState → ShellState}
  {s : ShellState} {log : Log}

/-- The call of `kfs_write` that a line makes. -/
def WriteLine.call (l : WriteLine) : KfsCall where
  name := l.name.take 31
  data := l.text.chars
  named := by
    have hpos : 0 < l.name.length :=
      List.length_pos_iff.mpr l.named.nonempty
    have htake : (l.name.take 31).length = min 31 l.name.length :=
      List.length_take
    omega
  short := by
    have hfits := l.fits
    have htext : l.text.length = l.text.chars.length := rfl
    have hmax : LINE_MAX = 128 := rfl
    omega

/-- A prefix of a name is a name. -/
theorem Named.take {name : CStr} (h : Named name) : Named (name.take 31) where
  nonempty hnil := by
    rcases List.take_eq_nil_iff.mp hnil with hzero | hnil
    · cases hzero
    · exact h.nonempty hnil
  no_space hmem := h.no_space (List.mem_of_mem_take hmem)

/-- A write that is refused prints the other message. -/
theorem not_succeeds {l : WriteLine}
    (hw : kfsWrite s.kfs (l.name.take 31) l.text.chars = (s.kfs, -1)) :
    ¬ Succeeds glyph other s.kfs l.line := by
  rintro ⟨n, name, hprints⟩
  have hfail : Prints glyph other s.kfs l.line
      (say "write: failed (file table or arena full)\n" []) := by
    intro t ht
    rw [(execute_write t l).2, ht, cmdWrite_named s.kfs l.named.no_space, hw]
    rfl
  have heq := congrArg (List.take 3) (hfail.unique hprints)
  have hwri : (say "write: failed (file table or arena full)\n" []).take 3
      = [119, 114, 105] := by
    decide
  have hwro : (say "wrote %d bytes to '%s'\n" [.word n, .str (some name)]).take 3
      = [119, 114, 111] := rfl
  rw [hwri, hwro] at heq
  cases heq

/-- A write that is not refused: it reports success, and what it leaves. -/
theorem write_done (glyph : Glyphs)
    (other : CStr → CStr → ShellState → ShellState) {l : WriteLine}
    (hpos : 0 ≤ (kfsWrite s.kfs (l.name.take 31) l.text.chars).2) :
    Succeeds glyph other s.kfs l.line
      ∧ (execute glyph other s l.line).kfs
        = (kfsWrite s.kfs (l.name.take 31) l.text.chars).1 := by
  have hcmd := cmdWrite_named s.kfs l.named.no_space l.text
  dsimp only at hcmd
  rw [if_neg (Int.not_lt.mpr hpos)] at hcmd
  constructor
  · refine ⟨UInt32.ofInt (kfsWrite s.kfs (l.name.take 31) l.text.chars).2,
      l.name.take 31, fun t ht => ?_⟩
    rw [(execute_write t l).2, ht, hcmd]
  · rw [(execute_write s l).1, hcmd]

/-- What `cat` prints is settled by what it reads. -/
theorem prints_iff {kfs : Ramfs} {name : CStr} (h : Named name)
    (out : List UInt8) :
    Prints glyph other kfs (catLine name) out ↔ out = cmdCat kfs name := by
  constructor
  · intro hout
    exact hout.unique (prints_cat h)
  · rintro rfl
    exact prints_cat h

/-- What `cat` prints of a name depends on what is read of that file only. -/
theorem cmdCat_congr {kfs kfs' : Ramfs} {name : CStr} (h : Named name)
    (hread : kfsRead kfs' name = kfsRead kfs name) :
    cmdCat kfs' name = cmdCat kfs name := by
  rw [cmdCat_named h, cmdCat_named h, hread]

/-- What `cat` prints of a file is the text of another name's message only
if it is in the file. -/
theorem cmdCat_text {kfs : Ramfs} {name : CStr} {text : List UInt8}
    (h : Named name) (htyped : ∀ c ∈ text, 0x20 ≤ c.toInt8)
    (hne : text ≠ []) (hother : text ≠ notFound name) :
    cmdCat kfs name = text ++ [10]
      ↔ kfsRead kfs name = some text ∨ kfsRead kfs name = some (text ++ [10]) := by
  rw [cmdCat_named h]
  cases kfsRead kfs name with
  | none => simp [Ne.symm hother]
  | some d =>
      dsimp only
      rw [shown_iff htyped (Or.inl hne), Option.some_inj, Option.some_inj]

/-- From the message that a file was not found its name can be told. -/
theorem notFound_inj {name name' : CStr}
    (h : notFound name = notFound name') : name = name' :=
  CStr.ext_chars (List.append_cancel_left (List.append_cancel_right h))

/-- The line's name is short: it is found again, and others are as they
were. -/
theorem found_again {kfs kfs' : Ramfs} {l : WriteLine}
    (hread : kfsRead kfs' l.name = some l.text.chars)
    (hothers : ∀ n ≠ l.name, kfsRead kfs' n = kfsRead kfs n) :
    Prints glyph other kfs' (catLine l.name) (l.text.chars ++ [10])
      ∧ ∀ name out, Named name → name ≠ l.name →
        4 + name.length ≤ LINE_MAX - 1 →
        Prints glyph other kfs (catLine name) out →
          Prints glyph other kfs' (catLine name) out := by
  constructor
  · rw [prints_iff l.named, cmdCat_named l.named, hread]
    exact ((shown_iff l.typed (Or.inr rfl)).mpr (Or.inl rfl)).symm
  · intro name out hname hne _ hout
    rw [prints_iff hname] at hout ⊢
    rw [hout, cmdCat_congr hname (hothers name hne)]

/-- The line's name is long: it is not found, and its first 31 bytes name
another file. -/
theorem lost_iff (glyph : Glyphs)
    (other : CStr → CStr → ShellState → ShellState) {kfs kfs' : Ramfs}
    {l : WriteLine}
    (hlong : 31 < l.name.length)
    (hnone : kfsRead kfs' l.name = none)
    (hread : kfsRead kfs' (l.name.take 31) = some l.text.chars)
    (hothers : ∀ n ≠ l.name.take 31, kfsRead kfs' n = kfsRead kfs n) :
    (Prints glyph other kfs' (catLine l.name) (l.text.chars ++ [10])
      ∧ ∀ name out, Named name → name ≠ l.name →
        4 + name.length ≤ LINE_MAX - 1 →
        Prints glyph other kfs (catLine name) out →
          Prints glyph other kfs' (catLine name) out)
    ↔ l.text.chars = notFound l.name
      ∧ (kfsRead kfs (l.name.take 31) = some l.text.chars
        ∨ kfsRead kfs (l.name.take 31) = some (l.text.chars ++ [10])) := by
  have hcut : (l.name.take 31).length = 31 := by
    have htake : (l.name.take 31).length = min 31 l.name.length :=
      List.length_take
    omega
  have hapart : l.name.take 31 ≠ l.name := by
    intro heq
    rw [heq] at hcut
    omega
  have hnamed := l.named.take
  have hcat : cmdCat kfs' (l.name.take 31) = l.text.chars ++ [10] := by
    rw [cmdCat_named hnamed, hread]
    exact (shown_iff l.typed (Or.inr rfl)).mpr (Or.inl rfl)
  rw [prints_iff l.named, cmdCat_named l.named, hnone]
  dsimp only
  rw [List.append_cancel_right_eq]
  refine and_congr_right fun htext => ?_
  have hne : l.text.chars ≠ [] := by
    rw [htext]
    exact List.cons_ne_nil 99 _
  have hother : l.text.chars ≠ notFound (l.name.take 31) := by
    rw [htext]
    exact fun heq => hapart (notFound_inj heq).symm
  rw [← cmdCat_text hnamed l.typed hne hother]
  constructor
  · intro hall
    have hmax : LINE_MAX = 128 := rfl
    have hsame := hall (l.name.take 31) _ hnamed hapart (by omega)
      (prints_cat hnamed)
    rw [prints_iff hnamed, hcat] at hsame
    exact hsame
  · intro hsame name out hname hne _ hout
    rw [prints_iff hname] at hout ⊢
    by_cases hprefix : name = l.name.take 31
    · rw [hout, hprefix, hsame, hcat]
    · rw [hout, cmdCat_congr hname (hothers name hprefix)]

/-- One line, over a filesystem with short names. -/
theorem writeCat_iff (h : Short s.kfs log) (l : WriteLine) :
    WriteCat glyph other s l ↔ Kept s.kfs l := by
  unfold WriteCat Kept
  dsimp only
  rcases h.write_read l.call with ⟨hno, hw⟩ | ⟨hok, hpos, hread, hothers⟩
  · constructor
    · intro _
      exact Or.inr (Or.inl hno)
    · intro _ hsucc
      exact absurd hsucc (not_succeeds hw)
  · obtain ⟨hsucc, hkfs⟩ := write_done glyph other hpos
    have hnext := h.write l.call
    rw [imp_iff_right hsucc, hkfs]
    by_cases hlen : l.name.length ≤ 31
    · have hcut : l.call.name = l.name := CStr.take_of_length_le hlen
      rw [hcut] at hread hothers
      have hcut : l.name.take 31 = l.name := hcut
      rw [hcut]
      exact iff_of_true (found_again hread hothers) (Or.inl hlen)
    · have hlost := lost_iff glyph other (Nat.lt_of_not_le hlen)
        (hnext.read_long (Nat.lt_of_not_le hlen)) hread hothers
      refine hlost.trans ?_
      constructor
      · intro hlost
        exact Or.inr (Or.inr hlost)
      · rintro (hshort | hno | hlost)
        · exact absurd hshort hlen
        · exact absurd hno hok
        · exact hlost

end Result

/-- After boot and any calls of `kfs_write`, a line is written and read
back exactly when its name is kept. -/
theorem write_cat_iff (glyph : Glyphs)
    (other : CStr → CStr → ShellState → ShellState)
    (kfiles : Vector RFile KFS_MAX_FILES) (karena : Mem)
    (calls : List KfsCall) (s : ShellState) (l : WriteLine) :
    let s := { s with kfs := kfsAfter kfiles karena calls }
    WriteCat glyph other s l ↔ Kept s.kfs l := by
  intro s
  obtain ⟨log, hlog⟩ := short_after kfiles karena calls
  exact writeCat_iff hlog l

/-- The name of 32 letters is a string. -/
theorem long_no_nul : 0 ∉ List.replicate 32 (97 : UInt8) := by
  intro h
  exact absurd (List.eq_of_mem_replicate h) (by decide)

/-- A name of 32 bytes. -/
def longName : CStr := ⟨List.replicate 32 97, long_no_nul⟩

/-- It can be typed as the argument of a command. -/
theorem longName_named : Named longName where
  nonempty h := by cases h
  no_space h := by
    have heq : (32 : UInt8) = 97 := List.eq_of_mem_replicate h
    exact absurd heq (by decide)

/-- The text `hi`. -/
def hi : CStr := CStr.ofString "hi"

/-- The text of the example can be typed. -/
theorem hi_typed : ∀ c ∈ hi.chars, 0x20 ≤ c.toInt8 := by
  decide +kernel

/-- The whole command fits into the line of the shell. -/
theorem hi_fits : 6 + longName.length + 1 + hi.length ≤ LINE_MAX - 1 := by
  decide

/-- The line that writes it to a file with that name. -/
def longLine : WriteLine where
  name := longName
  text := hi
  named := longName_named
  typed := hi_typed
  fits := hi_fits

/-- The state when `kfs_init` has run, and nothing is printed yet. -/
def bootState : ShellState where
  kout := ⟨Sinks.boot, fun _ => 0, 0⟩
  kfs := kfsAfter (Vector.replicate KFS_MAX_FILES noFile) (fun _ => 0) []
  hist := ⟨fun _ => CStr.empty, 0⟩
  line := []

/-- The file is written, and not found. -/
theorem long_name_not_found :
    ¬ WriteCat (fun _ _ => 0) (fun _ _ s => s) bootState longLine := by
  obtain ⟨log, hlog⟩ :=
    short_after (Vector.replicate KFS_MAX_FILES noFile) (fun _ => 0) []
  have hshort : Short bootState.kfs log := by
    unfold bootState
    dsimp only
    exact hlog
  rw [writeCat_iff hshort]
  decide +kernel

end Thuos.Shell
