/-
The shell (kernel/shell/shell.c): its line, its history and the commands
on files, over the output of kprintf.c and the filesystem of fs.c.

The line buffer is the list of its first `s_len` characters. A command
that prints is its output, the characters it gives to `kputc` in order.
Of the commands that `execute` knows, those that read or write the state
here are modelled; `other` stands for what the rest does.
-/
import Thuos.Fs.Kfs
import Thuos.Shell.Parse

namespace Thuos.Shell

open Fs Gui Thuos.Core

def LINE_MAX : Nat := 128

def HIST_MAX : Nat := 16

-- ============================================================== the history

/-- `hist` and `hist_n`. -/
structure Hist where
  hist : Nat → CStr
  histN : UInt32

/-- `hist_record`. -/
def histRecord (h : Hist) (line : CStr) : Hist :=
  if line.chars = [] then h
  else
    { hist := Function.update h.hist (h.histN.toNat % HIST_MAX)
        (line.take (LINE_MAX - 1))
      histN := h.histN + 1 }

/-- `cmd_history`. -/
def cmdHistory (h : Hist) : List UInt8 :=
  let n := h.histN.toNat
  let start := if n > HIST_MAX then n - HIST_MAX else 0
  if n = 0 then say "(no commands yet)\n" []
  else
    (List.range' start (n - start)).flatMap fun i =>
      say "  %u  %s\n" [.word (UInt32.ofNat i + 1),
        .str (some (h.hist (i % HIST_MAX)))]

-- ================================================================ the files

/-- `cmd_cat`. -/
def cmdCat (kfs : Ramfs) (args : CStr) : List UInt8 :=
  if args.chars = [] then say "usage: cat <file>\n" []
  else
    match kfsRead kfs args with
    | none => say "cat: %s: not found\n" [.str (some args)]
    | some d => d ++ if d = [] ∨ d.getLast? ≠ some 10 then [10] else []

/-- The text up to the first space. -/
def word (s : CStr) : CStr :=
  ⟨s.chars.takeWhile (· ≠ 32),
    fun h => s.noNul ((List.takeWhile_prefix _).subset h)⟩

/-- The text from the first space on. -/
def behindWord (s : CStr) : CStr :=
  ⟨s.chars.dropWhile (· ≠ 32),
    fun h => s.noNul ((List.dropWhile_suffix _).subset h)⟩

/-- `cmd_write`. -/
def cmdWrite (kfs : Ramfs) (args : CStr) : Ramfs × List UInt8 :=
  match (behindWord args).chars with
  | [] => (kfs, say "usage: write <file> <text>\n" [])
  | _ :: content =>
      let name := (word args).take 31
      let (kfs, w) := kfsWrite kfs name content
      if w < 0 then (kfs, say "write: failed (file table or arena full)\n" [])
      else
        (kfs, say "wrote %d bytes to '%s'\n"
          [.word (UInt32.ofInt w), .str (some name)])

-- ================================================================ the shell

/-- The statics of shell.c, and what it prints to and writes. -/
structure ShellState where
  kout : Kout
  kfs : Ramfs
  hist : Hist
  line : List UInt8

/-- The argument string of a line: behind the word and the spaces that
follow it. -/
def argsOf (line : CStr) : CStr :=
  ⟨(behindWord line).chars.dropWhile (· = 32),
    fun h => (behindWord line).noNul ((List.dropWhile_suffix _).subset h)⟩

/-- The string in the line buffer. -/
def lineStr (line : List UInt8) : CStr :=
  ⟨line.takeWhile (· ≠ 0), fun h => by
    simpa using List.mem_takeWhile_imp h⟩

section Steps

variable (glyph : Glyphs) (other : CStr → CStr → ShellState → ShellState)

/-- The characters of a command, printed. -/
def ShellState.print (s : ShellState) (text : List UInt8) : ShellState :=
  { s with kout := kputsAll glyph s.kout text }

/-- `execute`. -/
def execute (s : ShellState) (line : CStr) : ShellState :=
  let s := { s with hist := histRecord s.hist line }
  let cmd := word line
  let args := argsOf line
  if cmd.chars = [] then s
  else if cmd = CStr.ofString "history" then
    s.print glyph (cmdHistory s.hist)
  else if cmd = CStr.ofString "dmesg" ∨ cmd = CStr.ofString "logs" then
    { s with kout := klogDump glyph s.kout }
  else if cmd = CStr.ofString "cat" then s.print glyph (cmdCat s.kfs args)
  else if cmd = CStr.ofString "write" then
    let (kfs, out) := cmdWrite s.kfs args
    { s with kfs := kfs }.print glyph out
  else if cmd = CStr.ofString "echo" then
    s.print glyph (say "%s\n" [.str (some args)])
  else other cmd args s

/-- `shell_prompt`. -/
def shellPrompt (s : ShellState) : ShellState :=
  s.print glyph (say "thuos> " [])

/-- `shell_start`. -/
def shellStart (s : ShellState) : ShellState :=
  shellPrompt glyph
    ({ s with line := [] }.print glyph (say "Type 'help' to begin.\n\n" []))

/-- `shell_feed_char`; `c >= ' '` compares a `char`. -/
def shellFeedChar (s : ShellState) (c : UInt8) : ShellState :=
  if c = 10 then
    let s := { s with kout := kputc glyph s.kout 10 }
    let s := execute glyph other s (lineStr s.line)
    shellPrompt glyph { s with line := [] }
  else if c = 8 then
    if s.line.length > 0 then
      { s with line := s.line.dropLast, kout := kputc glyph s.kout 8 }
    else s
  else if s.line.length < LINE_MAX - 1 ∧ c.toInt8 ≥ 0x20 then
    { s with line := s.line ++ [c], kout := kputc glyph s.kout c }
  else s

end Steps

end Thuos.Shell
